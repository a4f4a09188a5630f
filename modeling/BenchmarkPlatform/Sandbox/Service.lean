import BenchmarkPlatform.Lib.Transition
import BenchmarkPlatform.Sandbox.Commands

/-!
# The sandbox manager

`SandboxService`: a build request is stored in the map of deployments, then queued, then taken by
one of two workers, which builds an image and starts a container, or calls the Kubernetes API. A
teardown looks its deployment up, removes the container and marks the status.

The map and the statuses are guarded by one mutex, the queue by another, and no mutex is held while
a command runs. A step is one critical section or one command. The map holds pointers to status
objects, and `enqueue_build` always makes a new one, so the objects have addresses here. What a
command prints, or what `exec_cmd` throws, is read from outside.
-/

namespace BenchmarkPlatform.Sandbox

open Lib

/-! ## Data -/

inductive BuildStatus where
  | pendingBuild
  | building
  | ready
  | failed
  | tornDown
  deriving DecidableEq

def BuildStatus.toString : BuildStatus → String
  | .pendingBuild => "pending_build"
  | .building => "building"
  | .ready => "ready"
  | .failed => "failed"
  | .tornDown => "torn_down"

structure DeploymentStatus where
  submissionId : String
  status : BuildStatus
  endpointUrl : String
  namespaceName : String
  errorMsg : String
  buildLogs : String
  deriving DecidableEq

def DeploymentStatus.new (submissionId : String) (status : BuildStatus) : DeploymentStatus :=
  ⟨submissionId, status, "", "", "", ""⟩

/-- The mode the constructor has settled on. -/
structure Config where
  mode : String

structure Shared where
  /-- The status objects by their addresses. -/
  objects : List DeploymentStatus
  deployments : String → Option ℕ
  queue : List BuildAndDeployRequest
  /-- The submissions a container or a pod was started for, in order. -/
  started : List String

/-- What a step reads from outside. -/
structure Env where
  /-- What `exec_cmd` returns or throws. -/
  output : Except String String
  /-- What a call of the Kubernetes client returns or throws. -/
  created : Except String Bool

/-- The call has returned `true`. -/
def Env.accepted (env : Env) : Bool :=
  match env.created with
  | .ok created => created
  | .error _ => false

/-! ## The threads -/

inductive K8sCall where
  | createNamespace
  | createResourceQuota
  | createNetworkPolicy
  | createPod
  | createService
  deriving DecidableEq

inductive Pc where
  /-- `enqueue_build`: the status is stored next. -/
  | enqueue (req : BuildAndDeployRequest)
  | enqueuePush (req : BuildAndDeployRequest)
  /-- A worker that waits for a request. -/
  | idle
  /-- `build_and_deploy`: the status is set to `building` next. -/
  | build (req : BuildAndDeployRequest)
  | exec (req : BuildAndDeployRequest) (obj : ℕ) (stage : Stage)
  | k8s (req : BuildAndDeployRequest) (obj : ℕ) (call : K8sCall)
  /-- The status is set to `ready` next. -/
  | finish (req : BuildAndDeployRequest) (obj : ℕ) (endpointUrl : String)
    (namespaceName : Option String)
  /-- `fail_deployment`. -/
  | fail (obj : ℕ) (errMsg : String)
  | teardown (submissionId : String)
  | teardownExec (submissionId : String) (obj : ℕ)
  /-- The status is set to `torn_down` next. -/
  | teardownSet (submissionId : String) (obj : ℕ)
  /-- The call has returned; a teardown returns a `bool`. -/
  | done (result : Option Bool)
  deriving DecidableEq

/-- The calls of other threads. -/
inductive Call where
  | enqueueBuild (req : BuildAndDeployRequest)
  | teardown (submissionId : String)

/-- What the handler of the build route checks; the error is the text of its answer. -/
def BuildAndDeployRequest.validate (req : BuildAndDeployRequest) : Except String Unit :=
  if req.submissionId = "" ∨ req.language = "" ∨ req.sourceUrl = "" then
    .error "submission_id, language, and source_url are required"
  else if req.language ≠ "go" ∧ req.language ≠ "cpp" ∧ req.language ≠ "rust" then
    .error ("unsupported language: " ++ req.language)
  else .ok ()

/-- What the handlers check before they call the service. -/
def Call.validate : Call → Except String Unit
  | .enqueueBuild req => req.validate
  | .teardown submissionId => if submissionId = "" then .error "submission_id required" else .ok ()

/-- A request that its handler accepts. -/
abbrev Request := { call : Call // call.validate = .ok () }

def Call.entry : Call → Pc
  | .enqueueBuild req => .enqueue req
  | .teardown submissionId => .teardown submissionId

/-- The regular expression `^[a-zA-Z0-9_-]+$`. -/
def ValidId (submissionId : String) : Prop :=
  submissionId ≠ "" ∧ ∀ c ∈ submissionId.toList, c.isAlphanum ∨ c = '_' ∨ c = '-'

instance : DecidablePred ValidId := fun submissionId ↦
  have : Decidable (∀ c ∈ submissionId.toList, c.isAlphanum ∨ c = '_' ∨ c = '-') :=
    List.decidableBAll _ _
  inferInstanceAs (Decidable (_ ∧ _))

/-- What `build_and_deploy` goes on with once the status is `building`. -/
def buildAndDeploy (cfg : Config) (req : BuildAndDeployRequest) (obj : ℕ) : Pc :=
  if ¬ValidId req.submissionId then .fail obj "invalid submission_id format"
  else if cfg.mode = "local" then
    if dockerfileTemplate req.language = "" then
      .fail obj ("unsupported language: " ++ req.language)
    else .exec req obj .mkdir
  else if cfg.mode = "k8s" then .k8s req obj .createNamespace
  else .fail obj ("unsupported mode: " ++ cfg.mode)

/-- The port in the last line of `docker port`, after its last colon. -/
def mappedPort (portOut : String) : String :=
  let port := (portOut.toList.reverse.takeWhile (· ≠ ':')).reverse.filter fun c ↦
    c ≠ '\n' ∧ c ≠ '\r' ∧ c ≠ ' '
  if ':' ∈ portOut.toList ∧ port ≠ [] ∧ port.all Char.isDigit then String.ofList port else "8080"

/-- What `build_and_deploy_local` goes on with after a command. -/
def afterCommand (req : BuildAndDeployRequest) (obj : ℕ) : Stage → Except String String → Pc
  | .mkdir, _ => .exec req obj (if req.sourceUrl = "" then .dockerfile else .download)
  | .download, .ok _ => .exec req obj .extract
  | .download, .error _ => .exec req obj .dockerfile
  | .extract, _ => .exec req obj .dockerfile
  | .dockerfile, .ok _ => .exec req obj .image
  | .dockerfile, .error what => .fail obj ("failed to write Dockerfile: " ++ what)
  | .image, .ok _ => .exec req obj .network
  | .image, .error what => .fail obj ("docker build failed: " ++ what)
  | .network, _ => .exec req obj .remove
  | .remove, _ => .exec req obj .run
  | .run, .ok _ => .exec req obj .port
  | .run, .error what => .fail obj ("docker run failed: " ++ what)
  | .port, .ok out => .finish req obj ("http://localhost:" ++ mappedPort out) none
  | .port, .error what => .fail obj ("docker run failed: " ++ what)

/-- What `build_and_deploy_k8s` goes on with after a call. What the call throws ends the build: the
loop of the worker catches it and waits for the next request. -/
def afterCall (req : BuildAndDeployRequest) (obj : ℕ) : K8sCall → Except String Bool → Pc
  | _, .error _ => .idle
  | .createNamespace, .ok false => .fail obj "failed to create namespace"
  | .createNamespace, .ok true => .k8s req obj .createResourceQuota
  | .createResourceQuota, .ok false => .fail obj "failed to create resource quota"
  | .createResourceQuota, .ok true => .k8s req obj .createNetworkPolicy
  | .createNetworkPolicy, .ok false => .fail obj "failed to create network policy"
  | .createNetworkPolicy, .ok true => .k8s req obj .createPod
  | .createPod, .ok false => .fail obj "failed to create pod"
  | .createPod, .ok true => .k8s req obj .createService
  | .createService, .ok false => .fail obj "failed to create service"
  | .createService, .ok true =>
    .finish req obj ("http://exchange-service.contestant-" ++ shortId req.submissionId ++
      ".svc.cluster.local:8080") (some ("contestant-" ++ shortId req.submissionId))

/-- Write a status object. -/
def Shared.set (s : Shared) (obj : ℕ) (f : DeploymentStatus → DeploymentStatus) : Shared :=
  { s with objects := s.objects.modify obj f }

/-- A new status object for a submission. -/
def Shared.store (s : Shared) (submissionId : String) (status : BuildStatus) : Shared :=
  { s with
    objects := s.objects ++ [.new submissionId status]
    deployments := Function.update s.deployments submissionId (some s.objects.length) }

/-- What a command leaves behind, besides its files and containers. -/
def Shared.command (s : Shared) (req : BuildAndDeployRequest) (obj : ℕ) :
    Stage → Except String String → Shared
  | .image, .ok out => s.set obj fun d ↦ { d with buildLogs := out }
  | .run, .ok _ => { s with started := s.started ++ [req.submissionId] }
  | _, _ => s

/-- The next step of a thread. -/
def advance (cfg : Config) (s : Shared) (env : Env) : Pc → Option (Shared × Pc)
  | .enqueue req => some (s.store req.submissionId .pendingBuild, .enqueuePush req)
  | .enqueuePush req => some ({ s with queue := s.queue ++ [req] }, .done none)
  | .idle =>
    match s.queue with
    | [] => none
    | req :: queue => some ({ s with queue := queue }, .build req)
  | .build req =>
    match s.deployments req.submissionId with
    | some obj =>
      some (s.set obj fun d ↦ { d with status := .building }, buildAndDeploy cfg req obj)
    | none =>
      some (s.store req.submissionId .building, buildAndDeploy cfg req s.objects.length)
  | .exec req obj stage =>
    some (s.command req obj stage env.output, afterCommand req obj stage env.output)
  | .k8s req obj call =>
    some (if call = .createPod ∧ env.accepted then
        { s with started := s.started ++ [req.submissionId] }
      else s, afterCall req obj call env.created)
  | .finish _ obj endpointUrl namespaceName =>
    some (s.set obj fun d ↦ { d with
      status := .ready
      endpointUrl := endpointUrl
      namespaceName := namespaceName.getD d.namespaceName }, .idle)
  | .fail obj errMsg =>
    some (s.set obj fun d ↦ { d with status := .failed, errorMsg := errMsg }, .idle)
  | .teardown submissionId =>
    match s.deployments submissionId with
    | none => some (s, .done (some false))
    | some obj =>
      some (s, if cfg.mode = "local" then .teardownExec submissionId obj
        else .teardownSet submissionId obj)
  | .teardownExec submissionId obj => some (s, .teardownSet submissionId obj)
  | .teardownSet _ obj =>
    some (s.set obj fun d ↦ { d with status := .tornDown }, .done (some true))
  | .done _ => none

/-! ## The system -/

abbrev Service := Pool Shared Pc

abbrev ServiceEvent := PoolEvent Call Env

/-- A call is made, or a thread takes its next step. -/
abbrev Service.step (cfg : Config) (s : Service) : ServiceEvent → Option Service :=
  s.next Call.entry (advance cfg)

/-- The service with its two workers. -/
def Service.initial : Service := ⟨⟨[], fun _ ↦ none, [], []⟩, [.idle, .idle]⟩

end BenchmarkPlatform.Sandbox
