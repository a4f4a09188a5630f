import BenchmarkPlatform.Orchestrator.Run

/-!
# The status of a submission

`submission-svc` keeps the status of a submission in a row of the database. Four handlers read and
write it: the status poll, POST start, POST stop, and a round of the finalizer. Each reads the row
or asks another service first, and writes when the reply is there; the step that serves the request
stands apart from the one that sends it and from the one that receives the reply. Two handlers write
only `WHERE status = 'testing'`.

The orchestrator is the one of `Orchestrator.Run`, and it can also take any step of its own. The row
and the list of endings carry the attempts they are about, for the statements only.
-/

namespace BenchmarkPlatform.Submissions

open Lib

/-! ## Data -/

/-- A submission and the name of its team, if the join finds one. -/
structure Submission where
  id : String
  teamName : Option String

structure Row where
  status : String
  errorMsg : String
  /-- The attempt POST start has set the row to `'testing'` for, if it was the last to write. -/
  attempt : Option ℕ

/-- What the sandbox manager says of a submission; a field that was not read is empty. -/
structure SandboxReply where
  status : String
  errorMsg : String
  endpointUrl : String

/-- What the orchestrator says of a run. -/
structure Report where
  attempt : ℕ
  status : String
  deriving DecidableEq

/-- Who wrote a row, and how many attempts there were when the orchestrator was asked. -/
inductive Writer where
  | sandbox
  | orchestrator (sentAt : ℕ) (report : Report)
  | stop (sentAt attempt : ℕ)

structure Shared where
  row : Row
  orchestrator : Orchestrator.State
  /-- The teams of the finalize requests sent to the scoring engine. -/
  finalizeRequests : List String
  /-- The attempts the row was `'testing'` for, and what wrote the row then. -/
  endings : List (ℕ × Writer)

/-- What a step reads from outside. -/
structure Env where
  now : String
  uuid : String
  /-- What the database throws. -/
  dbError : Option String
  sandbox : SandboxReply
  /-- The request reaches the orchestrator. -/
  served : Bool
  /-- The reply of the orchestrator arrives. -/
  replied : Bool
  delivery : Orchestrator.Delivery

inductive Response where
  | status (status : String) (error : Option String)
  | success (status : String)
  | error (code : ℕ) (message : String)

/-! ## The row -/

/-- `UPDATE submissions SET status, error_msg`. -/
def Shared.write (s : Shared) (w : Writer) (status errorMsg : String) : Shared :=
  { s with
    row := ⟨status, errorMsg, none⟩
    endings := s.endings ++ s.row.attempt.toList.map fun n ↦ (n, w) }

/-- `UPDATE submissions SET status … AND status = 'testing'`. -/
def Shared.writeIfTesting (s : Shared) (w : Writer) (status : String) : Shared :=
  if s.row.status = "testing" then s.write w status s.row.errorMsg else s

/-- `new_status` of the status poll. -/
def newStatus (status : String) : String :=
  if status = "completed" then "complete" else if status = "failed" then "failed" else ""

/-- The status the finalizer writes. -/
def endStatus (orchStatus : String) : Option String :=
  if orchStatus = "completed" then some "complete"
  else if orchStatus = "failed" then some "failed"
  else if orchStatus = "stopped" then some "ready"
  else none

/-! ## The handlers -/

inductive HandlerPc where
  /-- GET status: the row is read next. -/
  | getRead
  | getAskOrchestrator
  | getOrchestratorAsked (sentAt : ℕ)
  | getOrchestratorReply (sentAt : ℕ) (report : Option Report)
  /-- The row is `'complete'`; the team is read and the finalize request sent next. -/
  | getFinalize
  | getAskSandbox
  | getSandboxAsked
  | getSandboxReply (reply : SandboxReply)
  /-- The row is read once more for the answer. -/
  | getAnswer
  /-- POST start. -/
  | startAskSandbox
  | startSandboxAsked
  | startSandboxReply (reply : SandboxReply)
  | startAsked (endpointUrl : String)
  | startReply (attempt : Option ℕ)
  /-- POST stop. -/
  | stopAsk
  | stopAsked (sentAt : ℕ)
  /-- The run is stopped; the orchestrator publishes before it answers. -/
  | stopPublish (sentAt attempt : ℕ)
  | stopReply (sentAt : ℕ) (attempt : Option ℕ)
  /-- A round of the finalizer: the row is read next. -/
  | finalizerRead
  | finalizerAsk (teamName : String)
  | finalizerAsked (sentAt : ℕ) (teamName : String)
  | finalizerReply (sentAt : ℕ) (teamName : String) (report : Option Report)
  | finalizerFinalize (teamName : String)
  | done (response : Option Response)

inductive Handler where
  | getStatus
  | postStart
  | postStop
  | finalizer

def Handler.entry : Handler → HandlerPc
  | .getStatus => .getRead
  | .postStart => .startAskSandbox
  | .postStop => .stopAsk
  | .finalizer => .finalizerRead

/-- A step that uses the database: what it throws ends the handler. -/
def Env.database (env : Env) (s : Shared) (caught : String → Option Response)
    (r : Shared × HandlerPc) : Shared × HandlerPc :=
  match env.dbError with
  | some message => (s, .done (caught message))
  | none => r

def serverError (message : String) : Option Response := some (.error 500 message)

/-- The request POST start sends to the orchestrator. -/
def startPayload (id endpointUrl : String) : Orchestrator.StartBenchmarkRequest where
  runId := id
  submissionId := id
  endpointUrl := endpointUrl
  botCount := 10
  durationSeconds := 30
  profile := ⟨6 / 10, 3 / 10, 1 / 10, 5, ["AAPL", "GOOG"]⟩

/-- The answer of the orchestrator to a status request. -/
def Shared.report (s : Shared) (id : String) (env : Env) : Option Report :=
  match s.orchestrator.runs.lookup id, s.orchestrator.getRunStatus id with
  | some k, .ok run =>
    if env.served ∧ env.replied then some ⟨k, run.status.toString⟩ else none
  | _, _ => none

/-- The next step of a handler. -/
def advance (cfg : Orchestrator.Config) (sub : Submission) (s : Shared) (env : Env) :
    HandlerPc → Option (Shared × HandlerPc)
  | .getRead =>
    some (env.database s serverError (s,
      if s.row.status = "testing" then .getAskOrchestrator
      else if s.row.status ≠ "complete" ∧ s.row.status ≠ "failed" then .getAskSandbox
      else .getAnswer))
  | .getAskOrchestrator => some (s, .getOrchestratorAsked s.orchestrator.attempts.length)
  | .getOrchestratorAsked sentAt => some (s, .getOrchestratorReply sentAt (s.report sub.id env))
  | .getOrchestratorReply _ none => some (s, .getAnswer)
  | .getOrchestratorReply sentAt (some report) =>
    if newStatus report.status = "" then some (s, .getAnswer)
    else
      some (env.database s serverError
        (s.write (.orchestrator sentAt report) (newStatus report.status) s.row.errorMsg,
          if newStatus report.status = "complete" then .getFinalize else .getAnswer))
  | .getFinalize =>
    some (env.database s serverError
      ({ s with finalizeRequests := s.finalizeRequests ++ [sub.teamName.getD sub.id] }, .getAnswer))
  | .getAskSandbox => some (s, .getSandboxAsked)
  | .getSandboxAsked => some (s, .getSandboxReply env.sandbox)
  | .getSandboxReply reply =>
    if reply.status = "" then some (s, .getAnswer)
    else
      some (env.database s serverError (s.write .sandbox reply.status reply.errorMsg, .getAnswer))
  | .getAnswer =>
    some (env.database s serverError (s, .done (some (.status s.row.status
      (if s.row.errorMsg = "" then none else some s.row.errorMsg)))))
  | .startAskSandbox => some (s, .startSandboxAsked)
  | .startSandboxAsked => some (s, .startSandboxReply env.sandbox)
  | .startSandboxReply reply =>
    some (s, if reply.status ≠ "ready" ∨ reply.endpointUrl = "" then
        .done (some (.error 400 "sandbox is not ready or endpoint_url missing"))
      else .startAsked reply.endpointUrl)
  | .startAsked endpointUrl =>
    match s.orchestrator.startBenchmark cfg env.uuid env.now (startPayload sub.id endpointUrl) with
    | .error _ => some (s, .startReply none)
    | .ok o =>
      if env.served then
        some ({ s with orchestrator := o },
          .startReply (if env.replied then some s.orchestrator.attempts.length else none))
      else some (s, .startReply none)
  | .startReply none => some (s, .done (serverError "failed to start benchmark in orchestrator"))
  | .startReply (some attempt) =>
    some (env.database s serverError
      ({ s with row := ⟨"testing", s.row.errorMsg, some attempt⟩ },
        .done (some (.success "testing"))))
  | .stopAsk => some (s, .stopAsked s.orchestrator.attempts.length)
  | .stopAsked sentAt =>
    match s.orchestrator.runs.lookup sub.id, s.orchestrator.stopBenchmark env.now sub.id with
    | some k, .ok o =>
      if env.served then some ({ s with orchestrator := o }, .stopPublish sentAt k)
      else some (s, .stopReply sentAt none)
    | _, _ => some (s, .stopReply sentAt none)
  | .stopPublish sentAt attempt =>
    (Orchestrator.step cfg s.orchestrator (.publishStop attempt env.delivery)).map fun o ↦
      ({ s with orchestrator := o }, .stopReply sentAt (match env.delivery with
        | .sent => if env.replied then some attempt else none
        | .threw _ _ => none))
  | .stopReply _ none => some (s, .done (serverError "failed to stop benchmark in orchestrator"))
  | .stopReply sentAt (some attempt) =>
    some (env.database s serverError
      (s.writeIfTesting (.stop sentAt attempt) "ready", .done (some (.success "ready"))))
  | .finalizerRead =>
    some (env.database s (fun _ ↦ none) (s, match sub.teamName with
      | some teamName => if s.row.status = "testing" then .finalizerAsk teamName else .done none
      | none => .done none))
  | .finalizerAsk teamName => some (s, .finalizerAsked s.orchestrator.attempts.length teamName)
  | .finalizerAsked sentAt teamName =>
    some (s, .finalizerReply sentAt teamName (s.report sub.id env))
  | .finalizerReply _ _ none => some (s, .done none)
  | .finalizerReply sentAt teamName (some report) =>
    match endStatus report.status with
    | none => some (s, .done none)
    | some status =>
      some (env.database s (fun _ ↦ none)
        (s.writeIfTesting (.orchestrator sentAt report) status,
          if status = "complete" then .finalizerFinalize teamName else .done none))
  | .finalizerFinalize teamName =>
    some ({ s with finalizeRequests := s.finalizeRequests ++ [teamName] }, .done none)
  | .done _ => none

/-! ## The system -/

/-- The row, the orchestrator and the handlers in flight. -/
abbrev State := Pool Shared HandlerPc

inductive Event where
  /-- A handler is called, or one takes its next step. -/
  | handler (e : PoolEvent Handler Env)
  /-- The orchestrator takes a step of its own, or serves somebody else. -/
  | orchestrator (e : Orchestrator.Event)

def step (cfg : Orchestrator.Config) (sub : Submission) (s : State) : Event → Option State
  | .handler e => s.next Handler.entry (advance cfg sub) e
  | .orchestrator e =>
    (Orchestrator.step cfg s.shared.orchestrator e).map fun o ↦
      ⟨{ s.shared with orchestrator := o }, s.threads⟩

/-- A submission before its first benchmark. -/
def State.initial (status errorMsg : String) : State :=
  ⟨⟨⟨status, errorMsg, none⟩, .initial, [], []⟩, []⟩

end BenchmarkPlatform.Submissions
