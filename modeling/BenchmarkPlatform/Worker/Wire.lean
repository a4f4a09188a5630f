import BenchmarkPlatform.Lib.Json
import BenchmarkPlatform.Orchestrator.Run
import BenchmarkPlatform.Worker.Bot

/-!
# What the services write to each other

The orchestrator writes assignments that the workers read, and the workers write telemetry events
that the scoring engine reads. Each service has its own structures and its own spelling of the
names; a name the reader does not find leaves a default behind and no error.

Between writer and reader lies the JSON library, with a text that is printed and parsed: the reader
is given any object with the members that were written (`Json.SameMembers`). Ratios are exact.
-/

namespace BenchmarkPlatform

open Lib

/-! ## Assignments -/

/-- `to_json` of the orchestrator -/
def Orchestrator.BotAssignment.toJson (a : BotAssignment) : Json :=
  .object [
    ("run_id", .string a.runId),
    ("endpoint_url", .string a.endpointUrl),
    ("bot_count", .integer a.botCount),
    ("phase", .string a.phase),
    ("duration_ms", .integer a.durationMs),
    ("orders_per_sec_per_bot", .integer a.ordersPerSecPerBot),
    ("limit_ratio", .float a.limitRatio),
    ("market_ratio", .float a.marketRatio),
    ("cancel_ratio", .float a.cancelRatio),
    ("symbols", .array (a.symbols.map .string))]

/-- `from_json` of the worker, for an assignment that its default constructor made. -/
def Worker.BotAssignment.fromJson (j : Json) : Option BotAssignment := do
  let runId ← j.value Json.getString "run_id" ""
  let endpointUrl ← j.value Json.getString "endpoint_url" ""
  let botCount ← j.value Json.getInt "bot_count" 0
  let phase ← j.value Json.getString "phase" ""
  let durationMs ← j.value Json.getInt "duration_ms" 0
  let ordersPerSec ← j.value Json.getInt "orders_per_sec_per_bot" 0
  let limitRatio ← j.value Json.getDouble "limit_ratio" 0
  let marketRatio ← j.value Json.getDouble "market_ratio" 0
  let cancelRatio ← j.value Json.getDouble "cancel_ratio" 0
  let symbols ← match j.find? "symbols" with
    | some (.array elements) => elements.mapM Json.getString
    | _ => some []
  return { runId, endpointUrl, botCount, phase, durationMs, ordersPerSec, limitRatio, marketRatio,
           cancelRatio, symbols }

/-- The assignment with the worker's names. -/
def Orchestrator.BotAssignment.received (a : BotAssignment) : Worker.BotAssignment where
  runId := a.runId
  endpointUrl := a.endpointUrl
  botCount := a.botCount
  phase := a.phase
  durationMs := a.durationMs
  ordersPerSec := a.ordersPerSecPerBot
  limitRatio := a.limitRatio
  marketRatio := a.marketRatio
  cancelRatio := a.cancelRatio
  symbols := a.symbols

/-- The numbers are of the type `int`. -/
structure Orchestrator.BotAssignment.Typed (a : BotAssignment) : Prop where
  botCount : Json.Fits 32 a.botCount
  durationMs : Json.Fits 32 a.durationMs
  ordersPerSecPerBot : Json.Fits 32 a.ordersPerSecPerBot

theorem Worker.BotAssignment.fromJson_toJson {a : Orchestrator.BotAssignment} {j : Json}
    (ha : a.Typed) (hj : j.SameMembers a.toJson) : fromJson j = some a.received := by
  rw [fromJson, hj.find?_eq]
  simp only [hj.value]
  -- every name that is looked up is one that was written
  simp [-List.mapM_map, Json.read, Json.find?, Orchestrator.BotAssignment.toJson, List.lookup_cons,
    Json.getString, Json.getDouble, Json.getInt_integer ha.botCount,
    Json.getInt_integer ha.durationMs, Json.getInt_integer ha.ordersPerSecPerBot,
    Json.mapM_getString, Orchestrator.BotAssignment.received]

/-! ## Telemetry events -/

/-- The members that every event has. -/
def Worker.TelemetryEvent.members (e : TelemetryEvent) : List (String × Json) := [
  ("benchmark_run_id", .string e.benchmarkRunId),
  ("bot_id", .string e.botId),
  ("client_order_id", .string e.orderId),
  ("order_type", .string e.orderType),
  ("symbol", .string e.symbol),
  ("sent_at_ns", .integer e.sentAtNs),
  ("acked_at_ns", .integer e.ackedAtNs),
  ("latency_ns", .integer e.latencyNs),
  ("success", .boolean e.success),
  ("side", .string e.side),
  ("price", .integer e.price),
  ("quantity", .integer e.quantity),
  ("filled_qty", .integer e.filledQty),
  ("filled_price", .integer e.filledPrice),
  ("leaves_qty", .integer e.leavesQty)]

/-- `to_json` of the worker -/
def Worker.TelemetryEvent.toJson (e : TelemetryEvent) : Json :=
  let j := Json.object e.members
  if e.errorCode ≠ "" then j.set "error_code" (.string e.errorCode) else j

/-- What `run_consumer` makes of a message that parses; `none` if it drops it. -/
def Scoring.TelemetryEvent.fromJson (j : Json) : Option TelemetryEvent := do
  let benchmarkRunId ← j.read Json.getString "benchmark_run_id" ""
  let botId ← j.read Json.getString "bot_id" ""
  let orderId ← j.read Json.getString "client_order_id" ""
  let orderType ← j.read Json.getString "order_type" ""
  let symbol ← j.read Json.getString "symbol" ""
  let sentAtNs ← j.read Json.getInt64 "sent_at_ns" 0
  let ackedAtNs ← j.read Json.getInt64 "acked_at_ns" 0
  let latencyNs ← j.read Json.getInt64 "latency_ns" 0
  let success ← j.read Json.getBool "success" false
  let errorCode ← j.read Json.getString "error_code" ""
  return { benchmarkRunId, botId, orderId, orderType, symbol, sentAtNs, ackedAtNs, latencyNs,
           success, errorCode }

/-- The numbers that are read are of the type `int64_t`. -/
structure Worker.TelemetryEvent.Typed (e : TelemetryEvent) : Prop where
  sentAtNs : Json.Fits 64 e.sentAtNs
  ackedAtNs : Json.Fits 64 e.ackedAtNs
  latencyNs : Json.Fits 64 e.latencyNs

/-- The member that may be missing does not hide another one. -/
theorem Worker.TelemetryEvent.find?_toJson (e : TelemetryEvent) {key : String}
    (hkey : key ≠ "error_code") : e.toJson.find? key = e.members.lookup key := by
  rw [toJson]
  split_ifs
  · rw [Json.find?_set, if_neg hkey]
  · rfl

/-- The reader's default stands for the error code that the writer leaves out. -/
theorem Worker.TelemetryEvent.read_errorCode (e : TelemetryEvent) :
    e.toJson.read Json.getString "error_code" "" = some e.errorCode := by
  rw [toJson]
  split_ifs with hcode
  · rw [Json.read_of_find? (Json.find?_set.trans (if_pos rfl)), Json.getString]
  · rw [Json.read_of_find?_eq_none, not_not.mp hcode]
    simp [Json.find?, members, List.lookup_cons]

theorem Scoring.TelemetryEvent.fromJson_toJson {e : Worker.TelemetryEvent} {j : Json}
    (he : e.Typed) (hj : j.SameMembers e.toJson) : fromJson j = some e.decode := by
  rw [fromJson]
  simp only [hj.read, e.read_errorCode]
  simp [Json.read, e.find?_toJson, Worker.TelemetryEvent.members, List.lookup_cons, Json.getString,
    Json.getBool, Json.getInt64_integer he.sentAtNs, Json.getInt64_integer he.ackedAtNs,
    Json.getInt64_integer he.latencyNs, Worker.TelemetryEvent.decode]

/-! ## Both formats -/

/-- What one service writes the other reads: every field of an assignment, and of an event, with or
without an error, all that the scoring engine keeps. -/
theorem Worker.wire_formats_agree {a : Orchestrator.BotAssignment} {e : TelemetryEvent} {j k : Json}
    (ha : a.Typed) (hj : j.SameMembers a.toJson) (he : e.Typed) (hk : k.SameMembers e.toJson) :
    BotAssignment.fromJson j = some a.received ∧
      Scoring.TelemetryEvent.fromJson k = some e.decode :=
  ⟨BotAssignment.fromJson_toJson ha hj, Scoring.TelemetryEvent.fromJson_toJson he hk⟩

def Worker.burst : Orchestrator.BotAssignment where
  runId := "run-1"
  endpointUrl := "http://localhost:9000"
  botCount := 25
  phase := "burst"
  durationMs := 15000
  ordersPerSecPerBot := 20
  limitRatio := 6 / 10
  marketRatio := 3 / 10
  cancelRatio := 1 / 10
  symbols := ["BTC-USD", "ETH-USD"]

def Worker.refusal : TelemetryEvent where
  benchmarkRunId := "run-1"
  botId := "bot-7"
  orderId := "order-3"
  orderType := "limit"
  symbol := "BTC-USD"
  side := "buy"
  price := 100
  quantity := 2
  filledQty := 0
  filledPrice := 0
  leavesQty := 0
  sentAtNs := 1700000000000000000
  ackedAtNs := 1700000000000250000
  latencyNs := 250000
  success := false
  errorCode := "order rejected (HTTP 400)"

theorem Worker.burst_refusal_agree :
    BotAssignment.fromJson burst.toJson.sorted = some burst.received ∧
      Scoring.TelemetryEvent.fromJson refusal.toJson.sorted = some refusal.decode := by
  have hj : burst.toJson.sorted.SameMembers burst.toJson :=
    Json.sameMembers_sorted (by decide)
  have hk : refusal.toJson.sorted.SameMembers refusal.toJson :=
    Json.sameMembers_sorted (by decide)
  exact wire_formats_agree ⟨by decide, by decide, by decide⟩ hj ⟨by decide, by decide, by decide⟩ hk

end BenchmarkPlatform
