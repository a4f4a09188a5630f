import BenchmarkPlatform.Lib.Transition
import Mathlib.Data.List.AList

/-!
# The gateway

The gateway stands in front of the other services. A request that matches a route passes the advice
in front of the handler, which asks for the API key in production and gives the request an id. The
handler sends a copy of the request to the service of the route, and what comes back is the answer,
with a few headers more.

The sixteen threads share nothing but the clients, and none of them waits: the handler leaves a
callback behind, which runs when the service has answered or the call has failed. A step is the way
of one request to the service, or the run of one callback.

Names of headers are in lower case, as drogon keeps them; it compares them without regard to case.
-/

namespace BenchmarkPlatform.Gateway

open Lib

/-! ## Messages -/

abbrev Bytes := List UInt8

/-- The bytes of a text. -/
def text (s : String) : Bytes := s.toUTF8.data.toList

abbrev Headers := AList fun _ : String ↦ Bytes

/-- A header that is missing reads as the empty string. -/
def Headers.get (headers : Headers) (name : String) : Bytes := (headers.lookup name).getD []

inductive HttpMethod where
  | get
  | post
  | head
  | put
  | delete
  | options
  | patch
  deriving DecidableEq

structure HttpRequest where
  method : HttpMethod
  path : String
  query : String
  headers : Headers
  /-- The type that `contentType` finds. -/
  contentType : Bytes
  body : Bytes

def HttpRequest.addHeader (req : HttpRequest) (name : String) (value : Bytes) : HttpRequest :=
  { req with headers := req.headers.insert name value }

structure HttpResponse where
  status : ℕ
  headers : Headers
  contentType : Bytes
  body : Bytes

def HttpResponse.addHeader (resp : HttpResponse) (name : String) (value : Bytes) : HttpResponse :=
  { resp with headers := resp.headers.insert name value }

def HttpResponse.removeHeader (resp : HttpResponse) (name : String) : HttpResponse :=
  { resp with headers := resp.headers.erase name }

def HttpResponse.json (status : ℕ) (body : String) : HttpResponse :=
  ⟨status, ∅, text "application/json", text body⟩

/-! ## Configuration -/

/-- The settings that a request depends on. -/
structure Settings where
  devMode : Bool
  apiKey : Bytes

def envOrDefault (getenv : String → Option Bytes) (key defaultVal : String) : Bytes :=
  (getenv key).getD (text defaultVal)

def Settings.load (getenv : String → Option Bytes) : Settings where
  devMode := envOrDefault getenv "DEV_MODE" "true" = text "true"
  apiKey := envOrDefault getenv "API_KEY" ""

/-- The settings with which the gateway starts. -/
structure Config extends Settings where
  apiKey_ne : devMode = false → apiKey ≠ []

/-- The settings, unless `validate` ends the process. -/
def Settings.validate (s : Settings) : Option Config :=
  if h : s.devMode = false ∧ s.apiKey = [] then none
  else some ⟨s, fun hdev hkey ↦ h ⟨hdev, hkey⟩⟩

/-! ## The advice in front of the handlers and behind them -/

/-- The loop ORs the differences together, and stops nowhere. -/
def constantTimeCompare (a b : Bytes) : Bool :=
  if a.length ≠ b.length then false
  else (a.zip b).foldl (fun result p ↦ result ||| (p.1 ^^^ p.2)) 0 == 0

theorem foldl_or_xor_eq_zero_iff (ps : List (UInt8 × UInt8)) (result : UInt8) :
    ps.foldl (fun result p ↦ result ||| (p.1 ^^^ p.2)) result = 0 ↔
      result = 0 ∧ ∀ p ∈ ps, p.1 = p.2 := by
  induction ps generalizing result with
  | nil => simp
  | cons p ps ih =>
    rw [List.foldl_cons, ih, UInt8.or_eq_zero_iff, UInt8.xor_eq_zero_iff, List.forall_mem_cons,
      and_assoc]

theorem constantTimeCompare_iff (a b : Bytes) : constantTimeCompare a b = true ↔ a = b := by
  rw [constantTimeCompare]
  by_cases hlength : a.length = b.length
  · rw [if_neg (not_not.mpr hlength), beq_iff_eq, foldl_or_xor_eq_zero_iff,
      and_iff_right rfl, ← List.forall₂_eq_eq_eq, List.forall₂_iff_zip, and_iff_right hlength]
    exact Prod.forall
  · rw [if_pos hlength]
    refine iff_of_false Bool.false_ne_true fun h ↦ hlength ?_
    rw [h]

/-- The advice in front of the handler: the request it goes on with, or the answer. -/
def Config.preHandling (cfg : Config) (uuid : Bytes) (req : HttpRequest) :
    Except HttpResponse HttpRequest :=
  if req.method = .options then .error ⟨204, ∅, [], []⟩
  else if cfg.devMode = false ∧ req.headers.get "x-api-key" = [] then
    .error (.json 401 "\x7b\"success\":false,\"error\":\"missing X-API-Key header\"\x7d")
  else if cfg.devMode = false ∧
      constantTimeCompare (req.headers.get "x-api-key") cfg.apiKey = false then
    .error (.json 403 "\x7b\"success\":false,\"error\":\"invalid API key\"\x7d")
  else if req.headers.get "x-request-id" = [] then .ok (req.addHeader "x-request-id" uuid)
  else .ok req

/-- The headers that let a page of another origin see the answer. -/
def Config.addCors (cfg : Config) (req : HttpRequest) (resp : HttpResponse) : HttpResponse :=
  let origin := req.headers.get "origin"
  let resp :=
    if cfg.devMode then resp.addHeader "access-control-allow-origin" (text "*")
    else if origin = [] then resp
    else (resp.addHeader "access-control-allow-origin" origin).addHeader "vary" (text "Origin")
  let methods := if cfg.devMode then "GET, POST, PUT, DELETE, OPTIONS, PATCH"
    else "GET, POST, OPTIONS"
  let maxAge := if cfg.devMode then "86400" else "3600"
  (((resp.addHeader "access-control-allow-methods" (text methods)).addHeader
    "access-control-allow-headers"
      (text "Accept, Authorization, Content-Type, X-API-Key, X-Request-ID")).addHeader
    "access-control-expose-headers" (text "X-Request-ID")).addHeader
    "access-control-max-age" (text maxAge)

/-- The advice behind the handler. It sees the request with the id that the other advice gave it. -/
def Config.postHandling (cfg : Config) (req : HttpRequest) (resp : HttpResponse) : HttpResponse :=
  let reqId := req.headers.get "x-request-id"
  if reqId = [] then cfg.addCors req resp
  else (cfg.addCors req resp).addHeader "x-request-id" reqId

/-! ## The proxy -/

/-- The services that the gateway has a client for. -/
inductive Backend where
  | submissionSvc
  | leaderboardSvc
  | scoringEngine
  | botOrchestrator
  deriving DecidableEq

def Backend.name : Backend → String
  | .submissionSvc => "submission-svc"
  | .leaderboardSvc => "leaderboard-svc"
  | .scoringEngine => "scoring-engine"
  | .botOrchestrator => "bot-orchestrator"

/-- `targetPath`. -/
def HttpRequest.targetPath (req : HttpRequest) : String :=
  if req.query ≠ "" then req.path ++ "?" ++ req.query else req.path

def notProxied : List String := ["host", "connection", "upgrade", "content-length", "content-type"]

/-- The copy of a request that is sent on. -/
def HttpRequest.forwarded (req : HttpRequest) : HttpRequest where
  method := req.method
  path := req.targetPath
  query := ""
  headers := req.headers.foldl
    (fun headers key value ↦ if key ∉ notProxied then headers.insert key value else headers) ∅
  contentType :=
    if req.headers.get "content-type" ≠ [] then req.headers.get "content-type" else req.contentType
  body := req.body

/-- The answer to the client, from what the call has come to. -/
def Backend.relay (b : Backend) : Option HttpResponse → HttpResponse
  | some resp => (resp.removeHeader "content-length").removeHeader "transfer-encoding"
  | none => .json 502
      ("\x7b\"error\":\"service unavailable: " ++ b.name ++ "\",\"success\":false\x7d")

/-! ## Routes -/

inductive Endpoint where
  | health
  | proxy (b : Backend)

structure Route where
  pattern : String
  endpoint : Endpoint
  methods : List HttpMethod

def routes : List Route :=
  [⟨"/api/v1/health", .health, [.get]⟩,
    ⟨"/api/v1/submissions", .proxy .submissionSvc, [.get, .post]⟩,
    ⟨"/api/submit", .proxy .submissionSvc, [.post]⟩,
    ⟨"/api/submission/\x7bid\x7d/status", .proxy .submissionSvc, [.get]⟩,
    ⟨"/api/v1/submissions/\x7bid\x7d", .proxy .submissionSvc, [.get]⟩,
    ⟨"/api/v1/submissions/\x7bid\x7d/benchmark", .proxy .submissionSvc, [.post]⟩,
    ⟨"/api/v1/submissions/\x7bid\x7d/start", .proxy .submissionSvc, [.post]⟩,
    ⟨"/api/v1/submissions/\x7bid\x7d/stop", .proxy .submissionSvc, [.post]⟩,
    ⟨"/api/v1/teams/\x7bname\x7d", .proxy .submissionSvc, [.delete]⟩,
    ⟨"/api/v1/teams/\x7bname\x7d/start", .proxy .submissionSvc, [.post]⟩,
    ⟨"/api/v1/teams/\x7bname\x7d/stop", .proxy .submissionSvc, [.post]⟩,
    ⟨"/api/v1/leaderboard", .proxy .leaderboardSvc, [.get]⟩,
    ⟨"/api/v1/leaderboard/stream", .proxy .leaderboardSvc, [.get]⟩,
    ⟨"/api/v1/benchmark/\x7bid\x7d/telemetry", .proxy .scoringEngine, [.get]⟩,
    ⟨"/api/v1/benchmark/\x7bid\x7d/telemetry/histogram", .proxy .scoringEngine, [.get]⟩,
    ⟨"/api/v1/benchmark/\x7bid\x7d/telemetry/finalize", .proxy .scoringEngine, [.post]⟩,
    ⟨"/api/v1/orchestrator/start", .proxy .botOrchestrator, [.post]⟩,
    ⟨"/api/v1/orchestrator/stop", .proxy .botOrchestrator, [.post]⟩,
    ⟨"/api/v1/orchestrator/status/\x7bid\x7d", .proxy .botOrchestrator, [.get]⟩]

def health : HttpResponse :=
  .json 200 ("\x7b\"data\":\x7b\"service\":\"gateway\",\"status\":\"healthy\"," ++
    "\"version\":\"0.1.0\"\x7d,\"success\":true\x7d")

/-- What drogon does by itself. -/
structure Framework where
  /-- Whether a path matches the pattern of a route. -/
  fits : String → String → Bool
  /-- The answer to a request without a route. -/
  refuse : HttpRequest → HttpResponse

def Route.Serves (framework : Framework) (req : HttpRequest) (route : Route) : Prop :=
  framework.fits route.pattern req.path = true ∧ req.method ∈ route.methods

instance (framework : Framework) (req : HttpRequest) : DecidablePred (Route.Serves framework req) :=
  fun _ ↦ inferInstanceAs (Decidable (_ ∧ _))

def Framework.route (framework : Framework) (req : HttpRequest) : Option Route :=
  routes.find? fun route ↦ route.Serves framework req

/-! ## The system -/

structure Shared where
  /-- What the services were sent, in order. -/
  sent : List (Backend × HttpRequest)
  /-- What a service has answered to a request. -/
  replies : List (Backend × HttpRequest × HttpResponse)

/-- What a step reads from outside. -/
structure Env where
  /-- What `getUuid` returns. -/
  uuid : {id : Bytes // id.length = 36}
  /-- What the call of the service comes to; `none` unless an answer has come. -/
  result : Option HttpResponse

/-- A call of a service: what it was sent, and what has come of it. -/
structure Call where
  backend : Backend
  message : HttpRequest
  result : Option HttpResponse

/-- The answer of the service, if there is one. -/
def Call.reply (call : Call) : Option (Backend × HttpRequest × HttpResponse) :=
  call.result.map fun resp ↦ (call.backend, call.message, resp)

inductive Pc where
  | received (req : HttpRequest)
  /-- The callback waits for the service. -/
  | waiting (req : HttpRequest) (b : Backend)
  /-- With the call it took, if it took one. -/
  | answered (call : Option Call) (resp : HttpResponse)

def advance (framework : Framework) (cfg : Config) (s : Shared) (env : Env) :
    Pc → Option (Shared × Pc)
  | .received req =>
    match framework.route req with
    | none => some (s, .answered none (framework.refuse req))
    | some route =>
      match cfg.preHandling env.uuid req with
      | .error resp => some (s, .answered none resp)
      | .ok req =>
        match route.endpoint with
        | .health => some (s, .answered none (cfg.postHandling req health))
        | .proxy b => some ({ s with sent := s.sent ++ [(b, req.forwarded)] }, .waiting req b)
  | .waiting req b =>
    let call : Call := ⟨b, req.forwarded, env.result⟩
    some ({ s with replies := s.replies ++ call.reply.toList },
      .answered (some call) (cfg.postHandling req (b.relay env.result)))
  | .answered _ _ => none

abbrev State := Pool Shared Pc

abbrev Event := PoolEvent HttpRequest Env

abbrev step (framework : Framework) (cfg : Config) (s : State) : Event → Option State :=
  s.next Pc.received (advance framework cfg)

def State.initial : State := ⟨⟨[], []⟩, []⟩

end BenchmarkPlatform.Gateway
