import BenchmarkPlatform.Sandbox.Teardown

/-!
# What `ready` stands for

A deployment whose status is `ready` has a well-formed endpoint, and behind it stand commands or
calls that succeeded, each after the ones it needs: a container is run from an image that was built,
a pod is created in a namespace that has its quota and its network policy. So no contestant's pod is
ever created outside an isolated namespace, whichever calls fail, and however the two workers and
the handlers interleave.
-/

namespace BenchmarkPlatform.Sandbox

open Lib

/-! ## What has succeeded -/

/-- A command of local mode, or a call of Kubernetes mode. -/
inductive Action where
  | command (stage : Stage)
  | call (call : K8sCall)
  deriving DecidableEq

/-- An action that succeeded, and for whom. -/
structure Success where
  submissionId : String
  action : Action
  deriving DecidableEq

/-- What has to have succeeded before. -/
def Action.needs : Action → List Action
  | .command .mkdir | .command .download | .command .extract | .command .dockerfile => []
  | .command .image => [.command .dockerfile]
  | .command .network | .command .remove | .command .run =>
    [.command .dockerfile, .command .image]
  | .command .port => [.command .dockerfile, .command .image, .command .run]
  | .call .createNamespace => []
  | .call .createResourceQuota => [.call .createNamespace]
  | .call .createNetworkPolicy => [.call .createNamespace, .call .createResourceQuota]
  | .call .createPod =>
    [.call .createNamespace, .call .createResourceQuota, .call .createNetworkPolicy]
  | .call .createService =>
    [.call .createNamespace, .call .createResourceQuota, .call .createNetworkPolicy,
      .call .createPod]

/-- The actions have succeeded for the submission. -/
def Did (log : List Success) (id : String) (actions : List Action) : Prop :=
  ∀ action ∈ actions, ⟨id, action⟩ ∈ log

/-- A success comes after those it needs. -/
def Success.Right (past : List Success) (success : Success) : Prop :=
  Did past success.submissionId success.action.needs

def Pc.successes (env : Env) : Pc → List Success
  | .exec req _ stage => if env.output.isOk then [⟨req.submissionId, .command stage⟩] else []
  | .k8s req _ call => if env.accepted then [⟨req.submissionId, .call call⟩] else []
  | _ => []

def Service.successes (s : Service) : ServiceEvent → List Success
  | .start _ => []
  | .run i env => (s.threads[i]?).elim [] (Pc.successes env)

/-- The endpoint of a container that runs: the port `docker port` gave, or the default. -/
def ServesLocal (log : List Success) (id endpointUrl : String) : Prop :=
  Did log id [.command .dockerfile, .command .image, .command .run, .command .port] ∧
    ∃ port : List Char, port ≠ [] ∧ (∀ c ∈ port, c.isDigit) ∧
      endpointUrl = "http://localhost:" ++ String.ofList port

/-- The endpoint of a pod that has been created in its namespace. -/
def ServesK8s (log : List Success) (id endpointUrl : String) : Prop :=
  Did log id [.call .createNamespace, .call .createResourceQuota, .call .createNetworkPolicy,
      .call .createPod, .call .createService] ∧
    endpointUrl
      = "http://exchange-service.contestant-" ++ shortId id ++ ".svc.cluster.local:8080"

/-- What stands behind an endpoint. -/
def Serves (cfg : Config) (log : List Success) (id endpointUrl : String) :
    Option String → Prop
  | none => ValidId id ∧ cfg.mode = "local" ∧ ServesLocal log id endpointUrl
  | some namespaceName => ValidId id ∧ cfg.mode = "k8s" ∧ ServesK8s log id endpointUrl ∧
    namespaceName = "contestant-" ++ shortId id

/-- The deployment is what its status says. -/
def DeploymentStatus.Truthful (cfg : Config) (log : List Success) (d : DeploymentStatus) : Prop :=
  d.status = .ready → ∃ namespaceName, Serves cfg log d.submissionId d.endpointUrl namespaceName ∧
    ∀ ns ∈ namespaceName, d.namespaceName = ns

/-- What a thread relies on. -/
def Pc.Relies (cfg : Config) (log : List Success) : Pc → Prop
  | .exec req _ stage => cfg.mode = "local" ∧ ValidId req.submissionId ∧
    Did log req.submissionId (Action.command stage).needs
  | .k8s req _ call => cfg.mode = "k8s" ∧ ValidId req.submissionId ∧
    Did log req.submissionId (Action.call call).needs
  | .finish req _ endpointUrl namespaceName =>
    Serves cfg log req.submissionId endpointUrl namespaceName
  | _ => True

variable {cfg : Config} {log : List Success}

theorem Did.mono {id : String} {actions : List Action} (h : Did log id actions)
    (new : List Success) : Did (log ++ new) id actions :=
  fun action ha ↦ List.mem_append_left new (h action ha)

theorem Did.snoc {id : String} {actions : List Action} (h : Did log id actions) (action : Action) :
    Did (log ++ [⟨id, action⟩]) id (actions ++ [action]) := by
  intro a ha
  rcases List.mem_append.mp ha with ha | ha
  · exact List.mem_append_left _ (h a ha)
  · rw [List.mem_singleton.mp ha]
    exact List.mem_append_right log List.mem_cons_self

theorem Serves.mono {id endpointUrl : String} {namespaceName : Option String}
    (h : Serves cfg log id endpointUrl namespaceName) (new : List Success) :
    Serves cfg (log ++ new) id endpointUrl namespaceName := by
  cases namespaceName with
  | none => exact ⟨h.1, h.2.1, h.2.2.1.mono new, h.2.2.2⟩
  | some ns => exact ⟨h.1, h.2.1, ⟨h.2.2.1.1.mono new, h.2.2.1.2⟩, h.2.2.2⟩

theorem DeploymentStatus.Truthful.mono {d : DeploymentStatus} (h : d.Truthful cfg log)
    (new : List Success) : d.Truthful cfg (log ++ new) := by
  intro hready
  obtain ⟨ns, hserves, hns⟩ := h hready
  exact ⟨ns, hserves.mono new, hns⟩

theorem Pc.Relies.mono {pc : Pc} (h : pc.Relies cfg log) (new : List Success) :
    pc.Relies cfg (log ++ new) := by
  cases pc with
  | exec req obj stage => exact ⟨h.1, h.2.1, h.2.2.mono new⟩
  | k8s req obj call => exact ⟨h.1, h.2.1, h.2.2.mono new⟩
  | finish req obj url ns => exact Serves.mono h new
  | _ => trivial

/-! ## One step -/

/-- The endpoint always ends in a number. -/
theorem mappedPort_digits (portOut : String) : ∃ port : List Char, port ≠ [] ∧
    (∀ c ∈ port, c.isDigit) ∧ mappedPort portOut = String.ofList port := by
  rw [mappedPort]
  split_ifs with h
  · exact ⟨_, h.2.1, List.all_eq_true.mp h.2.2, rfl⟩
  · exact ⟨['8', '0', '8', '0'], List.cons_ne_nil _ _, List.all_eq_true.mp rfl, rfl⟩

theorem relies_buildAndDeploy (req : BuildAndDeployRequest) (obj : ℕ) :
    (buildAndDeploy cfg req obj).Relies cfg log := by
  have hnil : Did log req.submissionId [] := fun action ha ↦ absurd ha List.not_mem_nil
  unfold buildAndDeploy
  split_ifs with hid hlocal hlanguage hk8s
  · trivial
  · exact ⟨hlocal, hid, hnil⟩
  · exact ⟨hk8s, hid, hnil⟩
  · trivial
  · trivial

theorem relies_afterCommand {req : BuildAndDeployRequest} {obj : ℕ} {stage : Stage} {env : Env}
    (h : Pc.Relies cfg log (.exec req obj stage)) :
    (afterCommand req obj stage env.output).Relies cfg
      (log ++ Pc.successes env (.exec req obj stage)) := by
  obtain ⟨hmode, hid, hdid⟩ := h
  have hnil : ∀ log' : List Success, Did log' req.submissionId [] :=
    fun _ action ha ↦ absurd ha List.not_mem_nil
  rw [Pc.successes]
  cases houtput : env.output with
  | error what =>
    rw [if_neg (by simp [Except.isOk, Except.toBool]), List.append_nil]
    cases stage with
    | mkdir =>
      rw [afterCommand]
      split_ifs
      · exact ⟨hmode, hid, hnil _⟩
      · exact ⟨hmode, hid, hnil _⟩
    | download | extract => exact ⟨hmode, hid, hnil _⟩
    | network | remove => exact ⟨hmode, hid, hdid⟩
    | dockerfile | image | run | port => trivial
  | ok out =>
    rw [if_pos (by simp [Except.isOk, Except.toBool])]
    cases stage with
    | mkdir =>
      rw [afterCommand]
      split_ifs
      · exact ⟨hmode, hid, hnil _⟩
      · exact ⟨hmode, hid, hnil _⟩
    | download | extract => exact ⟨hmode, hid, hnil _⟩
    | network | remove => exact ⟨hmode, hid, hdid.mono _⟩
    | dockerfile | image | run => exact ⟨hmode, hid, hdid.snoc _⟩
    | port =>
      obtain ⟨port, hne, hdigits, heq⟩ := mappedPort_digits out
      refine ⟨hid, hmode, hdid.snoc _, port, hne, hdigits, ?_⟩
      rw [heq]

theorem relies_afterCall {req : BuildAndDeployRequest} {obj : ℕ} {call : K8sCall} {env : Env}
    (h : Pc.Relies cfg log (.k8s req obj call)) :
    (afterCall req obj call env.created).Relies cfg
      (log ++ Pc.successes env (.k8s req obj call)) := by
  obtain ⟨hmode, hid, hdid⟩ := h
  rw [Pc.successes, Env.accepted]
  cases env.created with
  | error what => cases call <;> trivial
  | ok created =>
    cases created with
    | false => cases call <;> trivial
    | true =>
      rw [if_pos rfl]
      cases call with
      | createService => exact ⟨hid, hmode, ⟨hdid.snoc _, rfl⟩, rfl⟩
      | _ => exact ⟨hmode, hid, hdid.snoc _⟩

/-- A success is made by a thread that has all it needs. -/
theorem right_of_mem_successes {env : Env} {pc : Pc} (h : pc.Relies cfg log) :
    ∀ success ∈ pc.successes env, success.Right log := by
  intro success hmem
  cases pc with
  | exec req obj stage =>
    rw [Pc.successes] at hmem
    split_ifs at hmem
    · rw [List.mem_singleton.mp hmem]
      exact h.2.2
    · exact absurd hmem List.not_mem_nil
  | k8s req obj call =>
    rw [Pc.successes] at hmem
    split_ifs at hmem
    · rw [List.mem_singleton.mp hmem]
      exact h.2.2
    · exact absurd hmem List.not_mem_nil
  | _ => exact absurd hmem List.not_mem_nil

theorem Shared.mem_set {s : Shared} {obj : ℕ} {f : DeploymentStatus → DeploymentStatus}
    {d : DeploymentStatus} (h : d ∈ (s.set obj f).objects) :
    d ∈ s.objects ∨ ∃ d₀, s.objects[obj]? = some d₀ ∧ d = f d₀ := by
  obtain ⟨i, hi⟩ := List.mem_iff_getElem?.mp h
  rw [set, List.getElem?_modify] at hi
  obtain ⟨d₀, hd₀, rfl⟩ := Option.map_eq_some_iff.mp hi
  split_ifs with heq
  · exact Or.inr ⟨d₀, heq ▸ hd₀, rfl⟩
  · exact Or.inl (List.mem_of_getElem? hd₀)

/-- **One step** of a thread: what it then relies on has succeeded, and what it writes is true. -/
theorem advance_ready {s s' : Shared} {env : Env} {pc pc' : Pc} (hpc : pc.Relies cfg log)
    (howner : ∀ id obj, pc.work = some (id, obj) → s.owner obj = some id)
    (hobjects : ∀ d ∈ s.objects, d.Truthful cfg log) (h : advance cfg s env pc = some (s', pc')) :
    pc'.Relies cfg (log ++ pc.successes env) ∧
      ∀ d ∈ s'.objects, d.Truthful cfg (log ++ pc.successes env) := by
  have hkeep : ∀ d ∈ s.objects, d.Truthful cfg (log ++ pc.successes env) :=
    fun d hd ↦ (hobjects d hd).mono _
  -- an object that does not become ready stays truthful
  have hset : ∀ obj (f : DeploymentStatus → DeploymentStatus), (∀ d, (f d).status ≠ .ready) →
      ∀ d ∈ (s.set obj f).objects, d.Truthful cfg (log ++ pc.successes env) := by
    intro obj f hf d hd
    rcases Shared.mem_set hd with hd | ⟨d₀, -, rfl⟩
    · exact hkeep d hd
    · exact fun hready ↦ absurd hready (hf d₀)
  have hstore : ∀ id (status : BuildStatus), status ≠ .ready →
      ∀ d ∈ (s.store id status).objects, d.Truthful cfg (log ++ pc.successes env) := by
    intro id status hstatus d hd
    rcases List.mem_append.mp hd with hd | hd
    · exact hkeep d hd
    · rw [List.mem_singleton.mp hd]
      exact fun hready ↦ absurd hready hstatus
  cases pc with
  | enqueue req =>
    obtain ⟨rfl, rfl⟩ := Prod.mk.inj (Option.some_inj.mp h)
    exact ⟨trivial, hstore _ _ (by simp)⟩
  | enqueuePush req =>
    obtain ⟨rfl, rfl⟩ := Prod.mk.inj (Option.some_inj.mp h)
    exact ⟨trivial, hkeep⟩
  | idle =>
    rw [advance] at h
    split at h
    · simp at h
    · obtain ⟨rfl, rfl⟩ := Prod.mk.inj (Option.some_inj.mp h)
      exact ⟨trivial, hkeep⟩
  | build req =>
    rw [advance] at h
    split at h
    · obtain ⟨rfl, rfl⟩ := Prod.mk.inj (Option.some_inj.mp h)
      exact ⟨relies_buildAndDeploy req _, hset _ _ fun d ↦ by simp⟩
    · obtain ⟨rfl, rfl⟩ := Prod.mk.inj (Option.some_inj.mp h)
      exact ⟨relies_buildAndDeploy req _, hstore _ _ (by simp)⟩
  | exec req obj stage =>
    obtain ⟨rfl, rfl⟩ := Prod.mk.inj (Option.some_inj.mp h)
    refine ⟨relies_afterCommand hpc, fun d hd ↦ ?_⟩
    cases stage with
    | image =>
      cases houtput : env.output with
      | error what =>
        rw [houtput] at hd
        exact hkeep d hd
      | ok out =>
        -- only the logs change
        rw [houtput] at hd
        rcases Shared.mem_set hd with hd | ⟨d₀, hd₀, rfl⟩
        · exact hkeep d hd
        · exact hkeep d₀ (List.mem_of_getElem? hd₀)
    | run =>
      cases houtput : env.output with
      | error what =>
        rw [houtput] at hd
        exact hkeep d hd
      | ok out =>
        rw [houtput] at hd
        exact hkeep d hd
    | _ => exact hkeep d hd
  | k8s req obj call =>
    have hrelies : (afterCall req obj call env.created).Relies cfg _ := relies_afterCall hpc
    rw [advance] at h
    split_ifs at h
    all_goals
      obtain ⟨rfl, rfl⟩ := Prod.mk.inj (Option.some_inj.mp h)
      exact ⟨hrelies, hkeep⟩
  | finish req obj endpointUrl namespaceName =>
    obtain ⟨rfl, rfl⟩ := Prod.mk.inj (Option.some_inj.mp h)
    refine ⟨trivial, fun d hd ↦ ?_⟩
    rcases Shared.mem_set hd with hd | ⟨d₀, hd₀, rfl⟩
    · exact hkeep d hd
    · have hid : d₀.submissionId = req.submissionId := by
        have hself := howner _ _ rfl
        rw [Shared.owner, hd₀, Option.map_some, Option.some_inj] at hself
        exact hself
      intro _
      refine ⟨namespaceName, ?_, fun ns hns ↦ ?_⟩
      · rw [hid]
        exact Serves.mono hpc _
      · rw [Option.mem_def] at hns
        rw [hns, Option.getD_some]
  | fail obj errMsg =>
    obtain ⟨rfl, rfl⟩ := Prod.mk.inj (Option.some_inj.mp h)
    exact ⟨trivial, hset _ _ fun d ↦ by simp⟩
  | teardown submissionId =>
    rw [advance] at h
    split at h
    · obtain ⟨rfl, rfl⟩ := Prod.mk.inj (Option.some_inj.mp h)
      exact ⟨trivial, hkeep⟩
    · obtain ⟨rfl, rfl⟩ := Prod.mk.inj (Option.some_inj.mp h)
      refine ⟨?_, hkeep⟩
      split_ifs <;> trivial
  | teardownExec submissionId obj =>
    obtain ⟨rfl, rfl⟩ := Prod.mk.inj (Option.some_inj.mp h)
    exact ⟨trivial, hkeep⟩
  | teardownSet submissionId obj =>
    obtain ⟨rfl, rfl⟩ := Prod.mk.inj (Option.some_inj.mp h)
    exact ⟨trivial, hset _ _ fun d ↦ by simp⟩
  | done result => simp [advance] at h

/-! ## Runs -/

structure Service.Grounded (cfg : Config) (log : List Success) (s : Service) : Prop where
  inv : s.Inv
  relies : ∀ pc ∈ s.threads, pc.Relies cfg log
  truthful : ∀ d ∈ s.shared.objects, d.Truthful cfg log
  justified : Justified Success.Right log

theorem Service.Grounded.next {s t : Service} {e : ServiceEvent} (h : s.Grounded cfg log)
    (hstep : s.step cfg e = some t) : t.Grounded cfg (log ++ s.successes e) := by
  have hinv := h.inv.next hstep
  cases e with
  | start call =>
    obtain rfl := Option.some_inj.mp hstep
    rw [Service.successes, List.append_nil]
    refine ⟨hinv, Pool.forall_start h.relies ?_, h.truthful, h.justified⟩
    cases call <;> trivial
  | run i env =>
    obtain ⟨l, pc, r, m, pc', hthreads, hi, hadvance, rfl⟩ := Pool.next_run hstep
    have hsuccesses : s.successes (.run i env) = pc.successes env := by
      rw [Service.successes, hthreads, ← hi]
      simp
    have hrelies := h.relies
    have hheld := h.inv.held
    rw [hthreads] at hrelies hheld
    obtain ⟨hpc', hobjects⟩ := advance_ready (hrelies pc (by simp)) (hheld pc (by simp)) h.truthful
      hadvance
    rw [hsuccesses]
    exact ⟨hinv, Pool.forall_run hrelies (fun q hq ↦ hq.mono _) hpc', hobjects,
      h.justified.append (fun past later success hright ↦ hright.mono later)
        (right_of_mem_successes (hrelies pc (by simp)))⟩

/-- **Ready means deployed.** In every run, whichever commands and calls fail and however the
workers and handlers interleave: each command or call that succeeds comes after the successes it
needs, so a container is only run from a built image, and a pod is only created after the namespace,
its quota and its network policy. And a deployment whose status is `ready` has the endpoint of a
container or pod started that way. -/
theorem ready_deployed {es : List ServiceEvent} {s : Service}
    (h : exec (Service.step cfg) Service.initial es = some s) :
    let log := emitted (Service.step cfg) Service.successes Service.initial es
    (∀ past success future, log = past ++ success :: future →
      ∀ action ∈ success.action.needs, ⟨success.submissionId, action⟩ ∈ past) ∧
    ∀ d ∈ s.shared.objects, d.status = .ready →
      ∃ namespaceName, Serves cfg log d.submissionId d.endpointUrl namespaceName ∧
        ∀ ns ∈ namespaceName, d.namespaceName = ns := by
  have hinitial : Service.initial.Grounded cfg [] := by
    refine ⟨Service.inv_initial, fun pc hpc ↦ ?_, fun d hd ↦ absurd hd List.not_mem_nil,
      justified_nil _⟩
    obtain rfl : pc = .idle := by simpa [Service.initial] using hpc
    trivial
  have hlast := exec_emitted (P := fun log s ↦ Service.Grounded cfg log s)
    (fun _ _ _ _ hs hstep ↦ hs.next hstep) hinitial h
  exact ⟨hlast.justified, hlast.truthful⟩

/-- A build in a cluster that refuses nothing. -/
def clusterBuild : List ServiceEvent :=
  [.start (.enqueueBuild ⟨"sub-0001-go", "go", "http://minio/s1.tar.gz"⟩),
    .run 2 .lucky, .run 2 .lucky] ++ List.replicate 8 (.run 0 .lucky)

theorem ready_deployed_clusterBuild : ∃ s : Service, ∃ d ∈ s.shared.objects,
    d.namespaceName = "contestant-sub-0001" ∧ ∃ namespaceName,
      Serves ⟨"k8s"⟩ (emitted (Service.step ⟨"k8s"⟩) Service.successes Service.initial clusterBuild)
        d.submissionId d.endpointUrl namespaceName := by
  have hrun : ((exec (Service.step ⟨"k8s"⟩) Service.initial clusterBuild).any fun s ↦
      decide (∃ d ∈ s.shared.objects,
        d.status = .ready ∧ d.namespaceName = "contestant-sub-0001")) = true := by decide +kernel
  obtain ⟨s, hs, hd⟩ := (Option.any_eq_true _ _).mp hrun
  obtain ⟨d, hd, hready, hns⟩ := of_decide_eq_true hd
  obtain ⟨namespaceName, hserves, -⟩ := (ready_deployed hs).2 d hd hready
  exact ⟨s, d, hd, hns, namespaceName, hserves⟩

end BenchmarkPlatform.Sandbox
