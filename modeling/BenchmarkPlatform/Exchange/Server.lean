import BenchmarkPlatform.Lib.Transition
import BenchmarkPlatform.OrderBook.Ledger

/-!
# The template exchange

The HTTP handlers of `templates/cpp-exchange`: one book a symbol, and beside the books an index of
the orders that rest in them. Books and index have locks of their own, so a request is a sequence
of critical sections, and those of different requests interleave. `Exchange.advance` takes one of
them; a request served alone is `advance` until it answers.

What the JSON library reads from a body is an input: either its fields, with the types the handler
asks for, or the text of the exception it throws.
-/

namespace BenchmarkPlatform

open Lib

/-! ## Data -/

/-- The `symbol`, `side`, `type`, ... of a request body, where present. -/
structure OrderBody where
  symbol : Option String
  side : Option String
  type : Option String
  quantity : Option ℤ
  price : Option ℤ
  clientOrderId : Option String

structure OrderTracker where
  clientOrderId : String
  side : Side
  symbol : String
  origQty : ℤ
  remainingQty : ℤ
  deriving DecidableEq, Repr

structure ExecutionReport where
  orderId : String
  clientOrderId : String
  symbol : String
  status : String
  side : String
  filledQty : ℤ
  filledPrice : ℤ
  leavesQty : ℤ
  cumQty : ℤ
  timestampNs : ℤ
  deriving DecidableEq, Repr

inductive ResponseBody where
  | error (message : String)
  | report (report : ExecutionReport)
  deriving DecidableEq, Repr

structure Response where
  status : ℕ
  body : ResponseBody
  deriving DecidableEq, Repr

structure Exchange (τ : Type) where
  orderbooks : Finmap fun _ : String ↦ OrderBook τ
  orderIndex : Finmap fun _ : String ↦ OrderTracker
  orderCounter : ℕ

/-! ## Reading a request -/

/-- The order a POST asks for, once its body has been read and checked. -/
structure NewOrder where
  symbol : String
  side : Side
  type : OrderType
  price : ℤ
  quantity : ℤ
  clientOrderId : String
  deriving DecidableEq, Repr

/-- `std::transform` with `::toupper`. -/
def upperCase (symbol : String) : String := String.ofList (symbol.toList.map Char.toUpper)

def OrderBody.parse (body : OrderBody) : NewOrder where
  symbol := upperCase (body.symbol.getD "AAPL")
  side := if body.side.getD "" = "buy" ∨ body.side.getD "" = "Buy" then .buy else .sell
  type := if body.type.getD "" = "market" ∨ body.type.getD "" = "Market" then .market else .limit
  price := body.price.getD 0
  quantity := body.quantity.getD 0
  clientOrderId := body.clientOrderId.getD ""

/-- The checks of the POST handler before it touches a book. -/
def NewOrder.check (o : NewOrder) : Except String Unit :=
  if o.quantity ≤ 0 then .error "quantity must be positive"
  else if o.type = .limit ∧ o.price ≤ 0 then .error "price must be positive for limit orders"
  else .ok ()

/-! ## The handlers, one critical section at a time -/

/-- Where a request is. -/
inductive RequestPc where
  /-- POST, checked: `get_or_create_book` comes next. -/
  | postBook (o : NewOrder)
  /-- `next_order_id` comes next. -/
  | postNumber (o : NewOrder)
  /-- `add_order` comes next. -/
  | postAdd (o : NewOrder) (orderId : String)
  /-- The makers of the fills `todo` have not been updated yet; the tracker insert comes last. -/
  | postMakers (o : NewOrder) (orderId : String) (fills todo : List Fill)
  /-- DELETE: the tracker lookup comes next. -/
  | deleteLookup (orderId : String)
  /-- `get_or_create_book` comes next. -/
  | deleteBook (orderId : String) (tracker : OrderTracker)
  /-- `cancel_order` comes next. -/
  | deleteCancel (orderId : String) (tracker : OrderTracker)
  /-- The order is out of the book; the tracker erase comes last. -/
  | deleteErase (orderId : String) (tracker : OrderTracker)
  | done (response : Response)
  deriving DecidableEq

/-- The answer of a request that has been served. -/
def RequestPc.response : RequestPc → Option Response
  | .done response => some response
  | _ => none

inductive Request where
  /-- The body read, or what the JSON library threw. -/
  | post (body : Except String OrderBody)
  | delete (orderId : String)

/-- What a handler does before its first critical section. -/
def Request.entry : Request → RequestPc
  | .post (.error what) => .done ⟨400, .error ("bad request: " ++ what)⟩
  | .post (.ok body) =>
    match body.parse.check with
    | .error message => .done ⟨400, .error message⟩
    | .ok () => .postBook body.parse
  | .delete orderId => .deleteLookup orderId

/-- `int64_t` arithmetic that wraps around. -/
def toInt64 (n : ℤ) : ℤ := Int.bmod n (2 ^ 64)

/-- `filled_qty` of the report. -/
def filledQty (fills : List Fill) : ℤ := (fills.map Fill.quantity).sum

/-- `total_val` of the report, accumulated in 64 bits. -/
def totalVal (fills : List Fill) : ℤ :=
  fills.foldl (fun v fill ↦ toInt64 (v + toInt64 (fill.quantity * fill.price))) 0

def filledPrice (fills : List Fill) : ℤ :=
  if 0 < filledQty fills then (totalVal fills).tdiv (filledQty fills) else 0

def leavesQty (o : NewOrder) (fills : List Fill) : ℤ := o.quantity - filledQty fills

def orderStatus (o : NewOrder) (fills : List Fill) : String :=
  if leavesQty o fills = 0 then "filled"
  else if 0 < filledQty fills then "partial"
  else if o.type = .market then "rejected"
  else "new"

def Side.toString : Side → String
  | .buy => "buy"
  | .sell => "sell"

def NewOrder.report (o : NewOrder) (orderId : String) (fills : List Fill) (now : TimePoint) :
    ExecutionReport where
  orderId := orderId
  clientOrderId := o.clientOrderId
  symbol := o.symbol
  status := orderStatus o fills
  side := o.side.toString
  filledQty := filledQty fills
  filledPrice := filledPrice fills
  leavesQty := leavesQty o fills
  cumQty := filledQty fills
  timestampNs := now

/-- The report of a successful cancel; the tracker is the copy taken by the lookup. -/
def OrderTracker.cancelReport (t : OrderTracker) (orderId : String) (now : TimePoint) :
    ExecutionReport where
  orderId := orderId
  clientOrderId := t.clientOrderId
  symbol := t.symbol
  status := "cancelled"
  side := t.side.toString
  filledQty := 0
  filledPrice := 0
  leavesQty := 0
  cumQty := t.origQty - t.remainingQty
  timestampNs := now

def nextOrderId (symbol : String) (n : ℕ) : String := "ORD-" ++ symbol ++ "-" ++ toString n

/-- The order the POST handler hands to `add_order`: it names no account. -/
def NewOrder.toOrder (o : NewOrder) (orderId : String) (now : TimePoint) : Order :=
  ⟨orderId, "", o.side, o.type, o.price, o.quantity, now⟩

/-- The tracker entry of an order that rests. -/
def NewOrder.tracker (o : NewOrder) (fills : List Fill) : OrderTracker :=
  ⟨o.clientOrderId, o.side, o.symbol, o.quantity, leavesQty o fills⟩

/-- A limit order with a remainder is tracked. -/
def NewOrder.Tracked (o : NewOrder) (fills : List Fill) : Prop :=
  o.type = .limit ∧ 0 < leavesQty o fills

instance (o : NewOrder) (fills : List Fill) : Decidable (o.Tracked fills) :=
  inferInstanceAs (Decidable (_ ∧ _))

namespace Exchange

variable {τ : Type} [AddGroupWithOne τ]

/-- The book of a symbol, empty as long as none has been created. -/
def book (x : Exchange τ) (symbol : String) : OrderBook τ :=
  (x.orderbooks.lookup symbol).getD (OrderBook.new symbol)

def getOrCreateBook (x : Exchange τ) (symbol : String) : Exchange τ :=
  { x with orderbooks := x.orderbooks.insert symbol (x.book symbol) }

/-- One turn of the loop over the fills: the maker's tracker, if it is there. -/
def updateMaker (x : Exchange τ) (fill : Fill) : Exchange τ :=
  match x.orderIndex.lookup fill.makerOrderId with
  | none => x
  | some t =>
    let t := { t with remainingQty := t.remainingQty - fill.quantity }
    { x with orderIndex :=
        if t.remainingQty ≤ 0 then x.orderIndex.erase fill.makerOrderId
        else x.orderIndex.insert fill.makerOrderId t }

/-- The next critical section of a request. -/
def advance (x : Exchange τ) (env : CallEnv) : RequestPc → Option (Exchange τ × RequestPc)
  | .postBook o => some (x.getOrCreateBook o.symbol, .postNumber o)
  | .postNumber o =>
    some ({ x with orderCounter := x.orderCounter + 1 },
      .postAdd o (nextOrderId o.symbol (x.orderCounter + 1)))
  | .postAdd o orderId =>
    match (x.book o.symbol).addOrder env (o.toOrder orderId (env.now 0)) with
    | .error what => some (x, .done ⟨400, .error ("bad request: " ++ what)⟩)
    | .ok (fills, b) =>
      some ({ x with orderbooks := x.orderbooks.insert o.symbol b },
        .postMakers o orderId fills fills)
  | .postMakers o orderId fills (fill :: todo) =>
    some (x.updateMaker fill, .postMakers o orderId fills todo)
  | .postMakers o orderId fills [] =>
    some (if o.Tracked fills then
        { x with orderIndex := x.orderIndex.insert orderId (o.tracker fills) }
      else x, .done ⟨200, .report (o.report orderId fills (env.now 0))⟩)
  | .deleteLookup orderId =>
    match x.orderIndex.lookup orderId with
    | none => some (x, .done ⟨404, .error ("order not found: " ++ orderId)⟩)
    | some t => some (x, .deleteBook orderId t)
  | .deleteBook orderId t => some (x.getOrCreateBook t.symbol, .deleteCancel orderId t)
  | .deleteCancel orderId t =>
    match (x.book t.symbol).cancelOrder orderId with
    | (false, _) => some (x, .done ⟨404, .error ("order could not be cancelled: " ++ orderId)⟩)
    | (true, b) =>
      some ({ x with orderbooks := x.orderbooks.insert t.symbol b }, .deleteErase orderId t)
  | .deleteErase orderId t =>
    some ({ x with orderIndex := x.orderIndex.erase orderId },
      .done ⟨200, .report (t.cancelReport orderId (env.now 0))⟩)
  | .done _ => none

/-- The exchange as `main` sets it up. -/
def initial : Exchange τ :=
  ["AAPL", "GOOG", "MSFT", "AMZN", "TSLA"].foldl getOrCreateBook ⟨∅, ∅, 0⟩

end Exchange

/-! ## Requests in flight -/

/-- The exchange and its requests, each at its place. -/
abbrev Server (τ : Type) := Pool (Exchange τ) RequestPc

abbrev ServerEvent := PoolEvent Request CallEnv

variable {τ : Type} [AddGroupWithOne τ]

/-- A request arrives, or one takes its next step. -/
abbrev Server.step (s : Server τ) : ServerEvent → Option (Server τ) :=
  s.next Request.entry Exchange.advance

def Server.initial : Server τ := ⟨Exchange.initial, []⟩

/-- No request is in flight. -/
def Server.Quiet (s : Server τ) : Prop := ∀ pc ∈ s.threads, pc.response.isSome

instance : DecidablePred (Server.Quiet (τ := τ)) := fun s ↦
  inferInstanceAs (Decidable (∀ pc ∈ s.threads, pc.response.isSome))

end BenchmarkPlatform
