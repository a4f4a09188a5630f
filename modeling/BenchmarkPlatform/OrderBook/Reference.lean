import Mathlib.Data.List.MinMax
import Mathlib.Data.List.Sort
import BenchmarkPlatform.OrderBook.Invariant

/-!
# A naive price-time-priority book

What `OrderBook` is for, said without levels, cached totals or an index: the resting orders are one
list in order of acceptance, and a taker repeatedly trades with the best eligible order of that
list. This is a statement of purpose, not a translation; `OrderBook.Refinement` compares the two.
-/

namespace BenchmarkPlatform

open Lib

/-! ## The book -/

/-- A resting limit order. -/
structure Resting where
  id : String
  accountId : String
  side : Side
  price : ℤ
  quantity : ℤ
  deriving DecidableEq, Repr

instance : Weighted Resting String where
  key := Resting.id
  weight := Resting.quantity
  withWeight m w := { m with quantity := w }
  weight_withWeight _ _ := rfl
  key_withWeight _ _ := rfl

/-- A trade: who, against whom, at what price and how much. -/
structure Trade where
  makerId : String
  takerId : String
  price : ℤ
  quantity : ℤ
  deriving DecidableEq, Repr

/-- The resting orders, in order of acceptance. -/
abbrev NaiveBook := List Resting

namespace NaiveBook

/-- The opposite side, a price not worse than a limit, and not the taker's own account. -/
def eligible (taker : Order) (maker : Resting) : Bool :=
  maker.side = taker.side.opposite &&
    (taker.type = .market ||
      match taker.side with
      | .buy => decide (maker.price ≤ taker.price)
      | .sell => decide (taker.price ≤ maker.price)) &&
    (taker.accountId = "" || maker.accountId ≠ taker.accountId)

/-- How bad a price is for a taker: a buyer wants the lowest, a seller the highest. -/
def badness : Side → ℤ → ℤ
  | .buy, price => price
  | .sell, price => -price

/-- The eligible order of best price and, among those, of earliest acceptance. -/
def bestEligible (taker : Order) (n : NaiveBook) : Option Resting :=
  -- the order on `ℤ` is named because Mathlib has another, which does not compute
  @List.argmin _ ℤ Int.instLinearOrder.toPreorder _ (fun m ↦ badness taker.side m.price)
    (n.filter (eligible taker))

theorem mem_of_bestEligible {taker : Order} {n : NaiveBook} {m : Resting}
    (h : bestEligible taker n = some m) : m ∈ n :=
  (List.mem_filter.mp (List.argmin_mem h)).1

/-- Trade with the best eligible order until the demand `q` is exhausted or nothing is eligible:
the trades, what is left of the demand, and the book. -/
def matchTaker (taker : Order) (q : ℤ) (n : NaiveBook) : List Trade × ℤ × NaiveBook :=
  if 0 < q then
    match _h : bestEligible taker n with
    | none => ([], q, n)
    | some m =>
      let w := min q m.quantity
      let r := matchTaker taker (q - w) (settle m.id w n)
      (⟨m.id, taker.id, m.price, w⟩ :: r.1, r.2)
  else ([], q, n)
termination_by (n.length, q.toNat)
decreasing_by
  rename_i hq
  -- the maker leaves the list, or it covered the whole demand
  by_cases hw : m.quantity - min q m.quantity = 0
  · exact Prod.Lex.left _ _ (length_settle_lt (mem_of_bestEligible _h) hw)
  · rcases Nat.lt_or_eq_of_le (length_settle_le m.id (min q m.quantity) n) with hlt | heq
    · exact Prod.Lex.left _ _ hlt
    · rw [heq]
      exact Prod.Lex.right _ (by omega)

/-- What a call answers. -/
inductive Outcome where
  | trades (trades : List Trade)
  | refused
  | cancelled (found : Bool)
  deriving DecidableEq, Repr

/-- Refuse a bad quantity, a bad limit price or an id that is resting; otherwise match, then append
what is left of a limit order. -/
def addOrder (n : NaiveBook) (ord : Order) : NaiveBook × Outcome :=
  if ord.quantity ≤ 0 ∨ (ord.type = .limit ∧ ord.price ≤ 0) ∨ ord.id ∈ n.map Resting.id then
    (n, .refused)
  else
    let r := matchTaker ord ord.quantity n
    (if 0 < r.2.1 ∧ ord.type = .limit then
        r.2.2 ++ [⟨ord.id, ord.accountId, ord.side, ord.price, r.2.1⟩]
      else r.2.2, .trades r.1)

/-- Remove the order of an id, if it is resting. -/
def cancelOrder (n : NaiveBook) (id : String) : NaiveBook × Outcome :=
  (n.filter fun m ↦ m.id ≠ id, .cancelled (decide (id ∈ n.map Resting.id)))

def call (n : NaiveBook) : Call → NaiveBook × Outcome
  | .addOrder _ ord => n.addOrder ord
  | .cancelOrder id => n.cancelOrder id

/-! ## What can be seen of it -/

/-- The orders resting at one price of one side. -/
def queue (n : NaiveBook) (s : Side) (price : ℤ) : List Resting :=
  n.filter fun m ↦ m.side = s ∧ m.price = price

/-- The prices of a side, best first. -/
def prices (n : NaiveBook) (s : Side) : List ℤ :=
  ((n.filter fun m ↦ m.side = s).map Resting.price).dedup.insertionSort fun p p' ↦ ¬s.before p' p

/-- One level a price: the total quantity and the number of orders there. -/
def levels (τ : Type) [IntCast τ] (n : NaiveBook) (s : Side) : List (PriceLevel τ) :=
  (n.prices s).map fun p ↦
    ⟨p, (((n.queue s p).map Resting.quantity).sum : ℤ), toInt32 (n.queue s p).length⟩

end NaiveBook

/-- What the observers of a book show. -/
structure BookView (τ : Type) where
  bids : List (PriceLevel τ)
  asks : List (PriceLevel τ)
  bestBid : ℤ × Bool
  bestAsk : ℤ × Bool
  orderCount : ℕ

/-- The best of a list of prices in priority order. -/
def bestPrice : List ℤ → ℤ × Bool
  | [] => (0, false)
  | p :: _ => (p, true)

def NaiveBook.view (τ : Type) [IntCast τ] (n : NaiveBook) : BookView τ :=
  ⟨n.levels τ .buy, n.levels τ .sell, bestPrice (n.prices .buy), bestPrice (n.prices .sell),
    n.length⟩

def OrderBook.view {τ : Type} (b : OrderBook τ) : BookView τ :=
  ⟨(b.getSnapshot 0).bids, (b.getSnapshot 0).asks, b.bestBid, b.bestAsk, b.orderCount⟩

end BenchmarkPlatform
