import BenchmarkPlatform.Exchange.Serve
import BenchmarkPlatform.Scoring.Scorer
import BenchmarkPlatform.Worker.Fleet

/-!
# Bots on the template exchange

A bot sends an order or cancels one of the orders it believes to be live. The choice is made in the
bot's own thread; the request, the entry in `live_orders_` and the telemetry event follow in a
detached thread. Each request reaches the exchange and is served there in one step.

The random numbers are inputs, within the ranges of their distributions. How an order id travels in
the path of a request, and what text the JSON library makes of a body, belongs to the libraries and
is a parameter.
-/

namespace BenchmarkPlatform.Worker

open Lib

/-! ## The sender -/

structure OrderRequest where
  clientOrderId : String
  symbol : String
  side : String
  type : String
  price : ℤ
  quantity : ℤ
  timestampNs : ℤ

/-- The request as the exchange reads it. -/
def OrderRequest.body (o : OrderRequest) : OrderBody where
  symbol := some o.symbol
  side := some o.side
  type := some o.type
  quantity := some o.quantity
  price := if o.type = "limit" then some o.price else none
  clientOrderId := some o.clientOrderId

structure OrderResponse where
  orderId : String
  clientOrderId : String
  status : String
  filledQty : ℤ
  filledPrice : ℤ
  leavesQty : ℤ
  cumQty : ℤ
  timestampNs : ℤ

/-- A body is read field by field, with defaults. -/
def OrderResponse.ofBody : ResponseBody → OrderResponse
  | .report r => ⟨r.orderId, r.clientOrderId, r.status, r.filledQty, r.filledPrice, r.leavesQty,
      r.cumQty, r.timestampNs⟩
  | .error _ => ⟨"", "", "", 0, 0, 0, 0, 0⟩

/-- What the HTTP and JSON libraries do. -/
structure Net where
  /-- The id a DELETE handler finds in the path made for an order id; `none` if none is called. -/
  route : String → Option String
  dump : ResponseBody → String

/-- What `send_order` and `cancel_order` return, and the error message they leave. -/
abbrev Reply := Option OrderResponse × String

def Net.sendOrder (net : Net) (res : Response) : Reply :=
  if res.status ≥ 200 ∧ res.status < 300 then (some (.ofBody res.body), "")
  else (none, "order rejected (HTTP " ++ toString res.status ++ "): " ++ net.dump res.body)

def Net.cancelOrder (net : Net) (res : Response) : Reply :=
  if res.status = 404 then (none, "")
  else if res.status ≥ 200 ∧ res.status < 300 then (some (.ofBody res.body), "")
  else (none, "cancel rejected (HTTP " ++ toString res.status ++ "): " ++ net.dump res.body)

/-! ## The bot -/

structure TelemetryEvent where
  benchmarkRunId : String
  botId : String
  orderId : String
  orderType : String
  symbol : String
  side : String
  price : ℤ
  quantity : ℤ
  filledQty : ℤ
  filledPrice : ℤ
  leavesQty : ℤ
  sentAtNs : ℤ
  ackedAtNs : ℤ
  latencyNs : ℤ
  success : Bool
  errorCode : String

/-- What the scoring engine reads of an event. -/
def TelemetryEvent.decode (e : TelemetryEvent) : Scoring.TelemetryEvent where
  benchmarkRunId := e.benchmarkRunId
  botId := e.botId
  orderId := e.orderId
  orderType := e.orderType
  symbol := e.symbol
  sentAtNs := e.sentAtNs
  ackedAtNs := e.ackedAtNs
  latencyNs := e.latencyNs
  success := e.success
  errorCode := e.errorCode

structure Bot where
  cfg : BotConfig
  basePrice : ℤ
  liveOrders : List String

/-- A bot as its constructor leaves it; its persona depends on a hash of its id. -/
def Bot.new (hash : String → ℕ) (cfg : BotConfig) : Bot where
  cfg :=
    if hash cfg.botId % 3 = 0 then
      { cfg with limitRatio := 8 / 10, marketRatio := 1 / 10, cancelRatio := 1 / 10 }
    else if hash cfg.botId % 3 = 1 then
      { cfg with limitRatio := 0, marketRatio := 1, cancelRatio := 0 }
    else { cfg with limitRatio := 4 / 10, marketRatio := 0, cancelRatio := 6 / 10 }
  basePrice := 1500000
  liveOrders := []

/-- The random numbers of one `send_order`, and the clock. -/
structure Draws where
  ratio : ℚ
  symbol : ℕ
  live : ℕ
  buy : Bool
  drift : ℤ
  drift_mem : -75000 ≤ drift ∧ drift ≤ 75000
  spread : ℤ
  spread_mem : -50000 ≤ spread ∧ spread ≤ 50000
  quantity : ℤ
  quantity_mem : 1 ≤ quantity ∧ quantity ≤ 1000
  clientOrderId : String
  timestampNs : ℤ

inductive BotPc where
  /-- `send_order` of a bot is called. -/
  | choose (bot : ℕ) (d : Draws)
  /-- The detached thread of a cancel: the request is served next. -/
  | cancel (cfg : BotConfig) (orderId symbol : String)
  /-- The detached thread of an order: the request is served next. -/
  | send (bot : ℕ) (cfg : BotConfig) (order : OrderRequest)
  /-- `live_orders_` is looked at next. -/
  | sent (bot : ℕ) (cfg : BotConfig) (order : OrderRequest) (reply : Reply) (sentAt ackedAt : ℤ)
  | record (event : TelemetryEvent)
  | done

def Bot.drawSymbol (b : Bot) (d : Draws) : String :=
  if b.cfg.symbols = [] then "BTC-USD"
  else b.cfg.symbols.getD (d.symbol % b.cfg.symbols.length) ""

/-- The end of `send_order`: a new order. -/
def Bot.order (b : Bot) (i : ℕ) (d : Draws) : Bot × BotPc :=
  let market := d.ratio < b.cfg.cancelRatio + b.cfg.marketRatio
  let basePrice := min 2000000 (max 1000000 (b.basePrice + d.drift.tdiv 100))
  let price := if basePrice + d.spread ≤ 0 then 10000 else basePrice + d.spread
  ({ b with basePrice := if market then b.basePrice else basePrice },
    .send i b.cfg {
      clientOrderId := d.clientOrderId
      symbol := b.drawSymbol d
      side := if d.buy then "buy" else "sell"
      type := if market then "market" else "limit"
      price := if market then 0 else price
      quantity := d.quantity
      timestampNs := d.timestampNs })

/-- `send_order`, up to the start of its detached thread. -/
def Bot.sendOrder (b : Bot) (i : ℕ) (d : Draws) : Bot × BotPc :=
  if d.ratio < b.cfg.cancelRatio then
    match b.liveOrders[d.live % b.liveOrders.length]? with
    | none => b.order i d
    | some orderId =>
      let b := { b with liveOrders := b.liveOrders.eraseIdx (d.live % b.liveOrders.length) }
      if orderId = "" then b.order i d else (b, .cancel b.cfg orderId (b.drawSymbol d))
  else b.order i d

/-- The entry in `live_orders_` after a reply. -/
def Bot.keepLive (b : Bot) (reply : Option OrderResponse) : Bot :=
  match reply with
  | none => b
  | some resp =>
    if (resp.status = "new" ∨ resp.status = "partial") ∧ b.liveOrders.length < 100 then
      { b with liveOrders := b.liveOrders ++ [resp.orderId] }
    else b

def cancelEvent (cfg : BotConfig) (orderId symbol : String) (reply : Reply)
    (sentAt ackedAt : ℤ) : TelemetryEvent where
  benchmarkRunId := cfg.runId
  botId := cfg.botId
  orderId := orderId
  orderType := "cancel"
  symbol := symbol
  side := "none"
  price := 0
  quantity := 0
  filledQty := reply.1.elim 0 (·.filledQty)
  filledPrice := reply.1.elim 0 (·.filledPrice)
  leavesQty := reply.1.elim 0 (·.leavesQty)
  sentAtNs := sentAt
  ackedAtNs := ackedAt
  latencyNs := ackedAt - sentAt
  success := reply.1.isSome
  errorCode := reply.2

def orderEvent (cfg : BotConfig) (order : OrderRequest) (reply : Reply)
    (sentAt ackedAt : ℤ) : TelemetryEvent where
  benchmarkRunId := cfg.runId
  botId := cfg.botId
  orderId := order.clientOrderId
  orderType := order.type ++ "_" ++ order.side
  symbol := order.symbol
  side := order.side
  price := order.price
  quantity := order.quantity
  filledQty := reply.1.elim 0 (·.filledQty)
  filledPrice := reply.1.elim 0 (·.filledPrice)
  leavesQty := reply.1.elim 0 (·.leavesQty)
  sentAtNs := sentAt
  ackedAtNs := ackedAt
  latencyNs := ackedAt - sentAt
  success := reply.1.isSome
  errorCode := reply.2

end BenchmarkPlatform.Worker
