import BenchmarkPlatform.Sandbox.Service

/-!
# A teardown and the builds under way

When a teardown returns, its submission may still be on its way through the service: pushed in a
moment, queued, or in the hands of a worker. Nothing tells those builds of the teardown. They write
`building` and `ready` and start their container as if it had not been.

The status objects have owners: the object the map holds for a submission, and the object a worker
builds for, belong to that submission. So the builds of other submissions cannot interfere, and a
teardown is final until the next `enqueue_build` if and only if nothing of its own submission is
under way when it returns.
-/

namespace BenchmarkPlatform.Sandbox

open Lib

/-! ## The law -/

/-- The next step of the thread stores the status of a new build of the submission. -/
def Pc.Enqueues (id : String) (pc : Pc) : Prop :=
  match pc with
  | .enqueue req => req.submissionId = id
  | _ => False

instance (id : String) : DecidablePred (Pc.Enqueues id) := fun pc ↦
  match pc with
  | .enqueue req => inferInstanceAs (Decidable (req.submissionId = id))
  | .enqueuePush _ | .idle | .build _ | .exec _ _ _ | .k8s _ _ _ | .finish _ _ _ _ | .fail _ _
  | .teardown _ | .teardownExec _ _ | .teardownSet _ _ | .done _ => isFalse not_false

def Enqueues (id : String) (s : Service) : ServiceEvent → Prop
  | .start _ => False
  | .run i _ => ∃ pc ∈ s.threads[i]?, pc.Enqueues id

instance (id : String) (s : Service) : DecidablePred (Enqueues id s)
  | .start _ => isFalse not_false
  | .run i _ => inferInstanceAs (Decidable (∃ pc ∈ s.threads[i]?, pc.Enqueues id))

/-- A step of the thread sets the status of the submission to `building` or `ready`, or starts a
container for it. -/
def Pc.Revives (id : String) (s : Shared) (env : Env) : Pc → Prop
  | .build req => req.submissionId = id
  | .exec req _ stage => req.submissionId = id ∧ stage = .run ∧ env.output.isOk
  | .k8s req _ call => req.submissionId = id ∧ call = .createPod ∧ env.accepted
  | .finish _ obj _ _ => s.deployments id = some obj
  | _ => False

def Revives (id : String) (s : Service) : ServiceEvent → Prop
  | .start _ => False
  | .run i env => ∃ pc ∈ s.threads[i]?, pc.Revives id s.shared env

/-- The step is the last of a teardown of the submission, which then returns `true`. -/
def TearsDown (id : String) (s : Service) : ServiceEvent → Prop
  | .start _ => False
  | .run i _ => ∃ obj, s.threads[i]? = some (.teardownSet id obj)

/-- The thread is building the submission and can still revive it. What Docker answers is arbitrary,
so a worker at `docker port` can, although the container has been removed. -/
def Pc.Builds (id : String) (s : Shared) : Pc → Prop
  | .enqueuePush req => req.submissionId = id
  | .build req => req.submissionId = id
  | .exec req obj stage => req.submissionId = id ∧ (stage = .port → s.deployments id = some obj)
  | .k8s req obj call =>
    req.submissionId = id ∧ (call = .createService → s.deployments id = some obj)
  | .finish _ obj _ _ => s.deployments id = some obj
  | _ => False

/-- Nothing of the submission is under way. -/
def Service.Clear (id : String) (s : Service) : Prop :=
  (∀ req ∈ s.shared.queue, req.submissionId ≠ id) ∧ ∀ pc ∈ s.threads, ¬pc.Builds id s.shared

/-! ## Owners -/

namespace Shared

variable {s : Shared} {obj : ℕ} {id id' : String}

/-- The submission a status object belongs to. -/
def owner (s : Shared) (obj : ℕ) : Option String :=
  s.objects[obj]?.map DeploymentStatus.submissionId

/-- What is read from outside about a submission. -/
def status (s : Shared) (id : String) : Option BuildStatus :=
  (s.deployments id).bind fun obj ↦ s.objects[obj]?.map DeploymentStatus.status

theorem owner_set (s : Shared) (obj obj' : ℕ) {f : DeploymentStatus → DeploymentStatus}
    (hf : ∀ d, (f d).submissionId = d.submissionId) : (s.set obj f).owner obj' = s.owner obj' := by
  rw [owner, owner, set, List.getElem?_modify]
  cases s.objects[obj']? with
  | none => rfl
  | some d =>
    by_cases hobj : obj = obj' <;> simp [hobj, hf]

theorem owner_store (h : s.owner obj = some id) (id' : String) (status : BuildStatus) :
    (s.store id' status).owner obj = some id := by
  obtain ⟨d, hd, rfl⟩ := Option.map_eq_some_iff.mp h
  rw [owner, store, List.getElem?_append_left (List.getElem?_eq_some_iff.mp hd).1, hd]
  rfl

theorem owner_store_new (s : Shared) (id : String) (status : BuildStatus) :
    (s.store id status).owner s.objects.length = some id := by
  rw [owner, store, List.getElem?_append_right (Nat.le_refl _), Nat.sub_self]
  rfl

theorem deployments_store (s : Shared) (h : id ≠ id') (status : BuildStatus) :
    (s.store id' status).deployments id = s.deployments id := Function.update_of_ne h _ _

/-- Every object of the map belongs to the submission it is stored for. -/
def Deployed (s : Shared) : Prop := ∀ id obj, s.deployments id = some obj → s.owner obj = some id

theorem Deployed.store (h : s.Deployed) (id : String) (status : BuildStatus) :
    (s.store id status).Deployed := by
  intro id' obj hobj
  rcases eq_or_ne id' id with rfl | hne
  · obtain rfl : s.objects.length = obj := by simpa [Shared.store] using hobj
    exact owner_store_new s id' status
  · rw [deployments_store s hne] at hobj
    exact owner_store (h id' obj hobj) id status

theorem Deployed.set (h : s.Deployed) (obj : ℕ) {f : DeploymentStatus → DeploymentStatus}
    (hf : ∀ d, (f d).submissionId = d.submissionId) : (s.set obj f).Deployed := by
  intro id' obj' hobj
  rw [owner_set s obj obj' hf]
  exact h id' obj' hobj

end Shared

/-- The submission and the object a worker builds for. -/
def Pc.work : Pc → Option (String × ℕ)
  | .exec req obj _ => some (req.submissionId, obj)
  | .k8s req obj _ => some (req.submissionId, obj)
  | .finish req obj _ _ => some (req.submissionId, obj)
  | _ => none

/-- The thread is a worker. -/
def Pc.Worker : Pc → Prop
  | .idle | .build _ | .exec _ _ _ | .k8s _ _ _ | .finish _ _ _ _ | .fail _ _ => True
  | _ => False

structure Service.Inv (s : Service) : Prop where
  deployed : s.shared.Deployed
  held : ∀ pc ∈ s.threads, ∀ id obj, pc.work = some (id, obj) → s.shared.owner obj = some id
  worker : ∃ pc, s.threads[0]? = some pc ∧ pc.Worker

theorem work_buildAndDeploy {cfg : Config} {req : BuildAndDeployRequest} {obj : ℕ}
    {w : String × ℕ} (h : (buildAndDeploy cfg req obj).work = some w) :
    w = (req.submissionId, obj) := by
  unfold buildAndDeploy at h
  split_ifs at h <;> simp_all [Pc.work]

theorem work_afterCommand {req : BuildAndDeployRequest} {obj : ℕ} {stage : Stage}
    {output : Except String String} {w : String × ℕ}
    (h : (afterCommand req obj stage output).work = some w) : w = (req.submissionId, obj) := by
  cases stage <;> cases output <;> simp_all [afterCommand, Pc.work]

theorem work_afterCall {req : BuildAndDeployRequest} {obj : ℕ} {call : K8sCall}
    {created : Except String Bool} {w : String × ℕ}
    (h : (afterCall req obj call created).work = some w) : w = (req.submissionId, obj) := by
  cases call <;> rcases created with _ | _ | _ <;> simp_all [afterCall, Pc.work]

theorem worker_buildAndDeploy (cfg : Config) (req : BuildAndDeployRequest) (obj : ℕ) :
    (buildAndDeploy cfg req obj).Worker := by
  unfold buildAndDeploy
  split_ifs <;> trivial

theorem worker_afterCommand (req : BuildAndDeployRequest) (obj : ℕ) (stage : Stage)
    (output : Except String String) : (afterCommand req obj stage output).Worker := by
  cases stage <;> cases output <;> trivial

theorem worker_afterCall (req : BuildAndDeployRequest) (obj : ℕ) (call : K8sCall)
    (created : Except String Bool) : (afterCall req obj call created).Worker := by
  cases call <;> rcases created with _ | _ | _ <;> trivial

theorem deployed_command {s : Shared} (h : s.Deployed) (req : BuildAndDeployRequest) (obj : ℕ)
    (stage : Stage) (output : Except String String) :
    (s.command req obj stage output).Deployed ∧
      ∀ obj', (s.command req obj stage output).owner obj' = s.owner obj' := by
  cases stage <;> cases output <;>
    first
    | exact ⟨h, fun _ ↦ rfl⟩
    | exact ⟨h.set obj fun _ ↦ rfl, fun obj' ↦ s.owner_set obj obj' fun _ ↦ rfl⟩

/-- **The step lemma.** Objects keep their owners, and a worker works on an object of its own
submission. -/
theorem advance_inv {cfg : Config} {s s' : Shared} {env : Env} {pc pc' : Pc} (hs : s.Deployed)
    (hpc : ∀ id obj, pc.work = some (id, obj) → s.owner obj = some id)
    (h : advance cfg s env pc = some (s', pc')) :
    s'.Deployed ∧ (∀ id obj, s.owner obj = some id → s'.owner obj = some id) ∧
      (∀ id obj, pc'.work = some (id, obj) → s'.owner obj = some id) ∧
      (pc.Worker → pc'.Worker) := by
  -- every write goes through a status object and leaves the id in it as it is
  have hset : ∀ obj (f : DeploymentStatus → DeploymentStatus),
      (∀ d, (f d).submissionId = d.submissionId) → (s.set obj f).Deployed ∧
        ∀ id obj', s.owner obj' = some id → (s.set obj f).owner obj' = some id :=
    fun obj f hf ↦ ⟨hs.set obj hf, fun id obj' hobj ↦ (s.owner_set obj obj' hf).trans hobj⟩
  cases pc with
  | enqueue req =>
    obtain ⟨rfl, rfl⟩ := Option.some_inj.mp h
    exact ⟨hs.store _ _, fun _ _ hobj ↦ Shared.owner_store hobj _ _, by simp [Pc.work], False.elim⟩
  | enqueuePush req =>
    obtain ⟨rfl, rfl⟩ := Option.some_inj.mp h
    exact ⟨hs, fun _ _ ↦ id, by simp [Pc.work], False.elim⟩
  | idle =>
    rw [advance] at h
    split at h
    · simp at h
    · obtain ⟨rfl, rfl⟩ := Option.some_inj.mp h
      exact ⟨hs, fun _ _ ↦ id, by simp [Pc.work], fun _ ↦ trivial⟩
  | build req =>
    rw [advance] at h
    split at h
    · rename_i obj hobj
      obtain ⟨rfl, rfl⟩ := Option.some_inj.mp h
      obtain ⟨hdeployed, howner⟩ := hset obj (fun d ↦ { d with status := .building }) fun _ ↦ rfl
      refine ⟨hdeployed, howner, fun id o ho ↦ ?_, fun _ ↦ worker_buildAndDeploy cfg req obj⟩
      -- the object found in the map is the submission's own, as the map is `Deployed`
      obtain ⟨rfl, rfl⟩ := Prod.mk.inj (work_buildAndDeploy ho)
      exact howner _ _ (hs _ _ hobj)
    · obtain ⟨rfl, rfl⟩ := Option.some_inj.mp h
      refine ⟨hs.store _ _, fun _ _ hobj ↦ Shared.owner_store hobj _ _, fun id o ho ↦ ?_,
        fun _ ↦ worker_buildAndDeploy cfg req _⟩
      obtain ⟨rfl, rfl⟩ := Prod.mk.inj (work_buildAndDeploy ho)
      exact Shared.owner_store_new s _ _
  | exec req obj stage =>
    obtain ⟨rfl, rfl⟩ := Option.some_inj.mp h
    obtain ⟨hdeployed, howner⟩ := deployed_command hs req obj stage env.output
    refine ⟨hdeployed, fun id o ho ↦ (howner o).trans ho, fun id o ho ↦ ?_,
      fun _ ↦ worker_afterCommand req obj stage env.output⟩
    obtain ⟨rfl, rfl⟩ := Prod.mk.inj (work_afterCommand ho)
    exact (howner _).trans (hpc _ _ rfl)
  | k8s req obj call =>
    obtain ⟨rfl, rfl⟩ := Option.some_inj.mp h
    have howner := hpc _ _ rfl
    split_ifs
    all_goals
      refine ⟨hs, fun _ _ ↦ id, fun id o ho ↦ ?_, fun _ ↦ worker_afterCall req obj call env.created⟩
      obtain ⟨rfl, rfl⟩ := Prod.mk.inj (work_afterCall ho)
      exact howner
  | finish req obj endpointUrl namespaceName =>
    obtain ⟨rfl, rfl⟩ := Option.some_inj.mp h
    obtain ⟨hdeployed, howner⟩ := hset obj (fun d ↦ { d with
      status := .ready
      endpointUrl := endpointUrl
      namespaceName := namespaceName.getD d.namespaceName }) fun _ ↦ rfl
    exact ⟨hdeployed, howner, by simp [Pc.work], fun _ ↦ trivial⟩
  | fail obj errMsg =>
    obtain ⟨rfl, rfl⟩ := Option.some_inj.mp h
    obtain ⟨hdeployed, howner⟩ :=
      hset obj (fun d ↦ { d with status := .failed, errorMsg := errMsg }) fun _ ↦ rfl
    exact ⟨hdeployed, howner, by simp [Pc.work], fun _ ↦ trivial⟩
  | teardown id =>
    rw [advance] at h
    split at h
    · obtain ⟨rfl, rfl⟩ := Option.some_inj.mp h
      exact ⟨hs, fun _ _ h ↦ h, by simp [Pc.work], False.elim⟩
    · obtain ⟨rfl, rfl⟩ := Option.some_inj.mp h
      refine ⟨hs, fun _ _ h ↦ h, ?_, False.elim⟩
      split_ifs <;> simp [Pc.work]
  | teardownExec id obj =>
    obtain ⟨rfl, rfl⟩ := Option.some_inj.mp h
    exact ⟨hs, fun _ _ h ↦ h, by simp [Pc.work], False.elim⟩
  | teardownSet id obj =>
    obtain ⟨rfl, rfl⟩ := Option.some_inj.mp h
    obtain ⟨hdeployed, howner⟩ := hset obj (fun d ↦ { d with status := .tornDown }) fun _ ↦ rfl
    exact ⟨hdeployed, howner, by simp [Pc.work], False.elim⟩
  | done result => simp [advance] at h

theorem Service.Inv.next {cfg : Config} {s s' : Service} {e : ServiceEvent} (h : s.Inv)
    (hstep : s.step cfg e = some s') : s'.Inv := by
  cases e with
  | start call =>
    obtain rfl := Option.some_inj.mp hstep
    refine ⟨h.deployed, Pool.forall_start h.held ?_, ?_⟩
    · intro id obj hw
      cases call <;> simp [Call.entry, Pc.work] at hw
    · obtain ⟨pc, hpc, hworker⟩ := h.worker
      refine ⟨pc, ?_, hworker⟩
      rw [List.getElem?_append_left (List.getElem?_eq_some_iff.mp hpc).1, hpc]
  | run i env =>
    obtain ⟨l, pc, r, m, pc', hthreads, hi, hadvance, rfl⟩ := Pool.next_run hstep
    have hheld := h.held
    rw [hthreads] at hheld
    obtain ⟨hdeployed, howner, hwork, hkeep⟩ :=
      advance_inv h.deployed (hheld pc (by simp)) hadvance
    refine ⟨hdeployed, Pool.forall_run hheld ?_ hwork, ?_⟩
    · exact fun q hq id obj hw ↦ howner id obj (hq id obj hw)
    · obtain ⟨w, hw, hworker⟩ := h.worker
      rw [hthreads] at hw
      cases l with
      | nil =>
        obtain rfl : pc = w := by simpa using hw
        exact ⟨pc', rfl, hkeep hworker⟩
      | cons q l => exact ⟨w, by simpa using hw, hworker⟩

theorem Service.inv_initial : Service.initial.Inv :=
  ⟨by simp [initial, Shared.Deployed], by simp [initial, Pc.work], .idle, rfl, trivial⟩

/-! ## What the law means for what is read -/

namespace Shared

variable {s : Shared} {obj : ℕ} {id id' : String}

theorem status_set (s : Shared) (id : String) (obj : ℕ) (f : DeploymentStatus → DeploymentStatus) :
    (s.set obj f).status id = s.status id ∨
      s.deployments id = some obj ∧ ∃ d, (s.set obj f).status id = some (f d).status := by
  rw [status, status, set]
  cases hdep : s.deployments id with
  | none => exact .inl rfl
  | some o =>
    rw [Option.bind_some, Option.bind_some, List.getElem?_modify]
    by_cases hobj : obj = o
    · cases s.objects[o]? with
      | none => exact .inl rfl
      | some d => exact .inr ⟨hobj ▸ rfl, d, by simp [hobj]⟩
    · left
      cases s.objects[o]? <;> simp [hobj]

/-- Logs are not the status. -/
theorem status_logs (s : Shared) (id : String) (obj : ℕ) (out : String) :
    (s.set obj fun d ↦ { d with buildLogs := out }).status id = s.status id := by
  rw [status, status, set]
  cases s.deployments id with
  | none => rfl
  | some o =>
    rw [Option.bind_some, Option.bind_some, List.getElem?_modify]
    by_cases hobj : obj = o <;> cases s.objects[o]? <;> simp [hobj]

theorem status_store (h : s.Deployed) (hne : id ≠ id') (status : BuildStatus) :
    (s.store id' status).status id = s.status id := by
  rw [Shared.status, Shared.status, deployments_store s hne]
  cases hdep : s.deployments id with
  | none => rfl
  | some obj =>
    obtain ⟨d, hd, -⟩ := Option.map_eq_some_iff.mp (h id obj hdep)
    rw [Option.bind_some, Option.bind_some, store,
      List.getElem?_append_left (List.getElem?_eq_some_iff.mp hd).1]

end Shared

theorem command_status (s : Shared) (req : BuildAndDeployRequest) (obj : ℕ) (stage : Stage)
    (output : Except String String) (id : String) :
    (s.command req obj stage output).status id = s.status id := by
  cases stage <;> cases output <;>
    first
    | rfl
    | exact s.status_logs id obj _

theorem command_started {s : Shared} {req : BuildAndDeployRequest} {obj : ℕ} {stage : Stage}
    {output : Except String String} {id : String}
    (h : ¬(req.submissionId = id ∧ stage = .run ∧ output.isOk)) :
    (s.command req obj stage output).started.count id = s.started.count id := by
  cases stage with
  | run =>
    cases output with
    | error what => rfl
    | ok out =>
      have hne : req.submissionId ≠ id := fun heq ↦ h ⟨heq, rfl, rfl⟩
      simp [Shared.command, List.count_append, hne]
  | _ => cases output <;> rfl

/-- A step that does not revive a submission starts no container for it, and if its status is
`building` or `ready` after the step, then it was so before. -/
theorem advance_not_revives {cfg : Config} {s s' : Shared} {env : Env} {pc pc' : Pc} {id : String}
    (hs : s.Deployed) (hrevives : ¬pc.Revives id s env)
    (h : advance cfg s env pc = some (s', pc')) :
    s'.started.count id = s.started.count id ∧
      ∀ status, s'.status id = some status → status = .building ∨ status = .ready →
        s.status id = some status := by
  -- a status read through the map changes only where the map leads to the object written
  have hset : ∀ obj (f : DeploymentStatus → DeploymentStatus),
      (s.deployments id = some obj → ∀ d, (f d).status ≠ .building ∧ (f d).status ≠ .ready) →
      ∀ status, (s.set obj f).status id = some status → status = .building ∨ status = .ready →
        s.status id = some status := by
    intro obj f hf status hstatus hlive
    rcases s.status_set id obj f with hsame | ⟨hdep, d, hd⟩
    · exact hsame ▸ hstatus
    · obtain rfl := Option.some_inj.mp (hd.symm.trans hstatus)
      rcases hlive with hlive | hlive
      · exact absurd hlive (hf hdep d).1
      · exact absurd hlive (hf hdep d).2
  cases pc with
  | enqueue req =>
    obtain ⟨rfl, rfl⟩ := Option.some_inj.mp h
    refine ⟨rfl, fun status hstatus hlive ↦ ?_⟩
    rcases eq_or_ne id req.submissionId with rfl | hne
    · have hnew : (s.store req.submissionId .pendingBuild).status req.submissionId =
          some .pendingBuild := by simp [Shared.status, Shared.store, DeploymentStatus.new]
      obtain rfl := Option.some_inj.mp (hnew.symm.trans hstatus)
      simp at hlive
    · rwa [Shared.status_store hs hne] at hstatus
  | idle =>
    rw [advance] at h
    split at h
    · simp at h
    · obtain ⟨rfl, rfl⟩ := Option.some_inj.mp h
      exact ⟨rfl, fun _ hstatus _ ↦ hstatus⟩
  | build req =>
    have hne : id ≠ req.submissionId := fun heq ↦ hrevives heq.symm
    rw [advance] at h
    split at h
    · rename_i obj hobj
      obtain ⟨rfl, rfl⟩ := Option.some_inj.mp h
      -- the object would be of two submissions
      refine ⟨rfl, hset obj _ fun hdep ↦ absurd ?_ hne⟩
      exact Option.some_inj.mp ((hs id obj hdep).symm.trans (hs _ obj hobj))
    · obtain ⟨rfl, rfl⟩ := Option.some_inj.mp h
      exact ⟨rfl, fun _ hstatus _ ↦ (Shared.status_store hs hne _).symm.trans hstatus⟩
  | exec req obj stage =>
    obtain ⟨rfl, rfl⟩ := Option.some_inj.mp h
    refine ⟨command_started hrevives, fun status hstatus _ ↦ ?_⟩
    rw [← hstatus, command_status]
  | k8s req obj call =>
    obtain ⟨rfl, rfl⟩ := Option.some_inj.mp h
    split_ifs with hpod
    · have hne : req.submissionId ≠ id := fun heq ↦ hrevives ⟨heq, hpod⟩
      exact ⟨by simp [List.count_append, hne], fun _ hstatus _ ↦ hstatus⟩
    · exact ⟨rfl, fun _ hstatus _ ↦ hstatus⟩
  | finish req obj endpointUrl namespaceName =>
    obtain ⟨rfl, rfl⟩ := Option.some_inj.mp h
    -- an object that the map has replaced is not what a reader sees
    exact ⟨rfl, hset obj _ fun hdep ↦ absurd hdep hrevives⟩
  | fail obj errMsg =>
    obtain ⟨rfl, rfl⟩ := Option.some_inj.mp h
    exact ⟨rfl, hset obj _ fun _ _ ↦ ⟨by simp, by simp⟩⟩
  | teardownSet id' obj =>
    obtain ⟨rfl, rfl⟩ := Option.some_inj.mp h
    exact ⟨rfl, hset obj _ fun _ _ ↦ ⟨by simp, by simp⟩⟩
  | teardown id' =>
    rw [advance] at h
    split at h <;>
    · obtain ⟨rfl, rfl⟩ := Option.some_inj.mp h
      exact ⟨rfl, fun _ hstatus _ ↦ hstatus⟩
  | enqueuePush req =>
    obtain ⟨rfl, rfl⟩ := Option.some_inj.mp h
    exact ⟨rfl, fun _ hstatus _ ↦ hstatus⟩
  | teardownExec id' obj =>
    obtain ⟨rfl, rfl⟩ := Option.some_inj.mp h
    exact ⟨rfl, fun _ hstatus _ ↦ hstatus⟩
  | done result => simp [advance] at h

/-! ## Nothing under way stays nothing under way -/

theorem Pc.builds_congr {id : String} {s s' : Shared} (h : s'.deployments id = s.deployments id)
    (pc : Pc) : pc.Builds id s' ↔ pc.Builds id s := by
  cases pc <;> simp [Pc.Builds, h]

theorem Pc.Revives.builds {id : String} {s : Shared} {env : Env} {pc : Pc}
    (h : pc.Revives id s env) : pc.Builds id s := by
  cases pc with
  | build req => exact h
  | exec req obj stage =>
    obtain ⟨hid, rfl, -⟩ := h
    exact ⟨hid, by simp⟩
  | k8s req obj call =>
    obtain ⟨hid, rfl, -⟩ := h
    exact ⟨hid, by simp⟩
  | finish req obj endpointUrl namespaceName => exact h
  | _ => exact h.elim

theorem builds_buildAndDeploy {cfg : Config} {req : BuildAndDeployRequest} {obj : ℕ} {id : String}
    {s : Shared} (h : (buildAndDeploy cfg req obj).Builds id s) : req.submissionId = id := by
  unfold buildAndDeploy at h
  split_ifs at h <;> simp_all [Pc.Builds]

theorem builds_afterCommand {req : BuildAndDeployRequest} {obj : ℕ} {stage : Stage}
    {output : Except String String} {id : String} {s : Shared}
    (hdep : s.deployments id = some obj → req.submissionId = id)
    (h : (afterCommand req obj stage output).Builds id s) :
    (Pc.exec req obj stage).Builds id s := by
  cases stage <;> cases output <;> simp_all [afterCommand, Pc.Builds]

theorem builds_afterCall {req : BuildAndDeployRequest} {obj : ℕ} {call : K8sCall}
    {created : Except String Bool} {id : String} {s : Shared}
    (hdep : s.deployments id = some obj → req.submissionId = id)
    (h : (afterCall req obj call created).Builds id s) : (Pc.k8s req obj call).Builds id s := by
  cases call <;> rcases created with _ | _ | _ <;> simp_all [afterCall, Pc.Builds]

theorem command_frame (s : Shared) (req : BuildAndDeployRequest) (obj : ℕ) (stage : Stage)
    (output : Except String String) :
    (s.command req obj stage output).queue = s.queue ∧
      (s.command req obj stage output).deployments = s.deployments := by
  cases stage <;> cases output <;> exact ⟨rfl, rfl⟩

/-- A thread that neither builds a submission nor stores a new build of it leaves its deployment
alone, and does not come to build it unless it takes it from the queue. -/
theorem advance_clear {cfg : Config} {s s' : Shared} {env : Env} {pc pc' : Pc} {id : String}
    (hs : s.Deployed) (hpc : ∀ id obj, pc.work = some (id, obj) → s.owner obj = some id)
    (hqueue : ∀ req ∈ s.queue, req.submissionId ≠ id) (hbuilds : ¬pc.Builds id s)
    (henqueue : ¬pc.Enqueues id)
    (h : advance cfg s env pc = some (s', pc')) :
    (∀ req ∈ s'.queue, req.submissionId ≠ id) ∧ ¬pc'.Builds id s' ∧
      s'.deployments id = s.deployments id := by
  -- a worker whose object is the one in the map is building that submission
  have howned : ∀ id' obj, pc.work = some (id', obj) → s.deployments id = some obj → id' = id :=
    fun id' obj hw hdep ↦ Option.some_inj.mp ((hpc id' obj hw).symm.trans (hs id obj hdep))
  cases pc with
  | enqueue req =>
    obtain ⟨rfl, rfl⟩ := Option.some_inj.mp h
    exact ⟨hqueue, henqueue, s.deployments_store (Ne.symm henqueue) _⟩
  | enqueuePush req =>
    obtain ⟨rfl, rfl⟩ := Option.some_inj.mp h
    refine ⟨fun r hr ↦ ?_, False.elim, rfl⟩
    rcases List.mem_append.mp hr with hr | hr
    · exact hqueue r hr
    · exact List.mem_singleton.mp hr ▸ hbuilds
  | idle =>
    rw [advance] at h
    split at h
    · simp at h
    · rename_i req queue hsplit
      obtain ⟨rfl, rfl⟩ := Option.some_inj.mp h
      rw [hsplit] at hqueue
      -- the request taken is one of the queue, so of another submission
      exact ⟨fun r hr ↦ hqueue r (List.mem_cons_of_mem _ hr), hqueue req List.mem_cons_self, rfl⟩
  | build req =>
    rw [advance] at h
    split at h
    · obtain ⟨rfl, rfl⟩ := Option.some_inj.mp h
      exact ⟨hqueue, fun hb ↦ hbuilds (builds_buildAndDeploy hb), rfl⟩
    · obtain ⟨rfl, rfl⟩ := Option.some_inj.mp h
      exact ⟨hqueue, fun hb ↦ hbuilds (builds_buildAndDeploy hb),
        s.deployments_store (Ne.symm hbuilds) _⟩
  | exec req obj stage =>
    obtain ⟨rfl, rfl⟩ := Option.some_inj.mp h
    obtain ⟨hq, hd⟩ := command_frame s req obj stage env.output
    refine ⟨hq ▸ hqueue, fun hb ↦ hbuilds ?_, congrFun hd id⟩
    exact builds_afterCommand (howned _ _ rfl) ((Pc.builds_congr (congrFun hd id) _).mp hb)
  | k8s req obj call =>
    obtain ⟨rfl, rfl⟩ := Option.some_inj.mp h
    split_ifs
    · exact ⟨hqueue, fun hb ↦ hbuilds (builds_afterCall (howned _ _ rfl) hb), rfl⟩
    · exact ⟨hqueue, fun hb ↦ hbuilds (builds_afterCall (howned _ _ rfl) hb), rfl⟩
  | teardown id' =>
    rw [advance] at h
    split at h
    · obtain ⟨rfl, rfl⟩ := Option.some_inj.mp h
      exact ⟨hqueue, False.elim, rfl⟩
    · obtain ⟨rfl, rfl⟩ := Option.some_inj.mp h
      refine ⟨hqueue, ?_, rfl⟩
      split_ifs <;> exact False.elim
  | finish req obj endpointUrl namespaceName =>
    obtain ⟨rfl, rfl⟩ := Option.some_inj.mp h
    exact ⟨hqueue, False.elim, rfl⟩
  | fail obj errMsg =>
    obtain ⟨rfl, rfl⟩ := Option.some_inj.mp h
    exact ⟨hqueue, False.elim, rfl⟩
  | teardownExec id' obj =>
    obtain ⟨rfl, rfl⟩ := Option.some_inj.mp h
    exact ⟨hqueue, False.elim, rfl⟩
  | teardownSet id' obj =>
    obtain ⟨rfl, rfl⟩ := Option.some_inj.mp h
    exact ⟨hqueue, False.elim, rfl⟩
  | done result => simp [advance] at h

/-- **The step lemma of a clear submission.** -/
theorem Service.Clear.next {cfg : Config} {s s' : Service} {e : ServiceEvent} {id : String}
    (hclear : s.Clear id) (h : s.Inv) (hallowed : ¬Enqueues id s e)
    (hstep : s.step cfg e = some s') : s'.Clear id := by
  cases e with
  | start call =>
    obtain rfl := Option.some_inj.mp hstep
    refine ⟨hclear.1, Pool.forall_start hclear.2 ?_⟩
    cases call <;> exact False.elim
  | run i env =>
    obtain ⟨l, pc, r, m, pc', hthreads, hi, hadvance, rfl⟩ := Pool.next_run hstep
    have hmem : pc ∈ s.threads := by simp [hthreads]
    have henqueue : ¬pc.Enqueues id := fun he ↦ hallowed ⟨pc, by simp [hthreads, ← hi], he⟩
    obtain ⟨hqueue, hbuilds, hdep⟩ := advance_clear h.deployed (h.held pc hmem) hclear.1
      (hclear.2 pc hmem) henqueue hadvance
    have hidle := hclear.2
    rw [hthreads] at hidle
    refine ⟨hqueue, Pool.forall_run hidle (fun q hq ↦ ?_) hbuilds⟩
    rw [Pc.builds_congr hdep]
    exact hq

/-! ## What is under way can revive the submission -/

/-- The submission can come back without a new call of `enqueue_build`. -/
def CanRevive (cfg : Config) (id : String) (s : Service) : Prop :=
  Breakable (Service.step cfg) (fun s e ↦ ¬Enqueues id s e) (fun s e ↦ ¬Revives id s e) s

/-- Every command and every call succeeds. -/
def Env.lucky : Env := ⟨.ok "", .ok true⟩

/-- The steps a worker still takes, at most, before it waits for the next request. -/
def Pc.rank : Pc → ℕ
  | .build _ => 13
  | .exec _ _ .mkdir => 12
  | .exec _ _ .download => 11
  | .exec _ _ .extract => 10
  | .exec _ _ .dockerfile => 9
  | .exec _ _ .image => 8
  | .exec _ _ .network => 7
  | .exec _ _ .remove => 6
  | .exec _ _ .run => 5
  | .exec _ _ .port => 4
  | .k8s _ _ .createNamespace => 12
  | .k8s _ _ .createResourceQuota => 11
  | .k8s _ _ .createNetworkPolicy => 10
  | .k8s _ _ .createPod => 9
  | .k8s _ _ .createService => 8
  | .finish _ _ _ _ => 1
  | .fail _ _ => 1
  | _ => 0

theorem rank_afterCommand (req : BuildAndDeployRequest) (obj : ℕ) (stage : Stage)
    (output : Except String String) :
    (afterCommand req obj stage output).rank < (Pc.exec req obj stage).rank := by
  cases stage with
  | mkdir =>
    rw [afterCommand]
    split_ifs <;> simp [Pc.rank]
  | _ => cases output <;> simp [afterCommand, Pc.rank]

theorem rank_afterCall (req : BuildAndDeployRequest) (obj : ℕ) (call : K8sCall)
    (created : Except String Bool) :
    (afterCall req obj call created).rank < (Pc.k8s req obj call).rank := by
  cases call <;> rcases created with _ | _ | _ <;> simp [afterCall, Pc.rank]

theorem rank_buildAndDeploy (cfg : Config) (req : BuildAndDeployRequest) (obj : ℕ) :
    (buildAndDeploy cfg req obj).rank < 13 := by
  unfold buildAndDeploy
  split_ifs <;> simp [Pc.rank]

/-- A busy worker takes its next step, and comes nearer to its next request. -/
theorem busy_advances (cfg : Config) (s : Shared) (env : Env) {pc : Pc} (hworker : pc.Worker)
    (hbusy : pc ≠ .idle) : ∃ s' pc', advance cfg s env pc = some (s', pc') ∧ pc'.Worker ∧
      pc'.rank < pc.rank ∧ s'.queue = s.queue := by
  cases pc with
  | idle => exact absurd rfl hbusy
  | build req =>
    rw [advance]
    split
    · exact ⟨_, _, rfl, worker_buildAndDeploy _ _ _, rank_buildAndDeploy _ _ _, rfl⟩
    · exact ⟨_, _, rfl, worker_buildAndDeploy _ _ _, rank_buildAndDeploy _ _ _, rfl⟩
  | exec req obj stage =>
    exact ⟨_, _, rfl, worker_afterCommand _ _ _ _, rank_afterCommand _ _ _ _,
      (command_frame s req obj stage env.output).1⟩
  | k8s req obj call =>
    refine ⟨_, _, rfl, worker_afterCall _ _ _ _, rank_afterCall _ _ _ _, ?_⟩
    split_ifs <;> rfl
  | finish req obj endpointUrl namespaceName =>
    exact ⟨_, _, rfl, trivial, Nat.one_pos, rfl⟩
  | fail obj errMsg => exact ⟨_, _, rfl, trivial, Nat.one_pos, rfl⟩
  | _ => exact hworker.elim

/-- A worker that builds the submission goes on to revive it, if all goes well. -/
theorem Pc.Builds.advances {s : Shared} {pc : Pc} {id : String} (hbuilds : pc.Builds id s)
    (cfg : Config) (hworker : pc.Worker) : pc.Revives id s .lucky ∨
      ∃ s' pc', advance cfg s .lucky pc = some (s', pc') ∧ pc'.Builds id s' ∧ pc'.Worker ∧
        pc'.rank < pc.rank := by
  cases pc with
  | build req => exact .inl hbuilds
  | exec req obj stage =>
    obtain ⟨hid, hdep⟩ := hbuilds
    by_cases hrun : stage = .run
    · exact .inl ⟨hid, hrun, rfl⟩
    · refine .inr ⟨_, _, rfl, ?_, worker_afterCommand _ _ _ _, rank_afterCommand _ _ _ _⟩
      rw [Pc.builds_congr (congrFun (command_frame s req obj stage _).2 id)]
      cases stage <;> simp_all [afterCommand, Env.lucky, Pc.Builds]
      split_ifs <;> simp
  | k8s req obj call =>
    obtain ⟨hid, hdep⟩ := hbuilds
    by_cases hpod : call = .createPod
    · exact .inl ⟨hid, hpod, rfl⟩
    · refine .inr ⟨_, _, rfl, ?_, worker_afterCall _ _ _ _, rank_afterCall _ _ _ _⟩
      rw [if_neg fun h ↦ hpod h.1]
      cases call <;> simp_all [afterCall, Env.lucky, Pc.Builds]
  | finish req obj endpointUrl namespaceName => exact .inl hbuilds
  | enqueuePush req => exact hworker.elim
  | _ => exact hbuilds.elim

theorem not_enqueues {s : Service} {i : ℕ} {pc : Pc} {id : String}
    (hpc : s.threads[i]? = some pc) (h : ¬pc.Enqueues id) (env : Env) :
    ¬Enqueues id s (.run i env) := by
  rintro ⟨q, hq, he⟩
  obtain rfl := Option.some_inj.mp (hpc.symm.trans hq)
  exact h he

theorem Pc.Worker.not_enqueues {pc : Pc} (h : pc.Worker) (id : String) : ¬pc.Enqueues id := by
  cases pc with
  | enqueue req => exact h.elim
  | _ => exact not_false

/-- A worker is building the submission. -/
theorem canRevive_of_builds {cfg : Config} {id : String} {s : Service} {i : ℕ} {pc : Pc}
    (hpc : s.threads[i]? = some pc) (hworker : pc.Worker) (hbuilds : pc.Builds id s.shared) :
    CanRevive cfg id s := by
  induction hn : pc.rank using Nat.strongRecOn generalizing s pc with
  | ind n ih =>
    have hallowed := not_enqueues hpc (hworker.not_enqueues id) .lucky
    rcases hbuilds.advances cfg hworker with hrevives | ⟨m, pc', hadvance, hb, hw, hrank⟩
    · exact Breakable.now hallowed (not_not.mpr ⟨pc, hpc, hrevives⟩)
    · refine Breakable.later hallowed (Pool.run_eq_some hpc hadvance) ?_
      exact ih _ (hn ▸ hrank) (Pool.getElem?_set hpc) hw hb rfl

/-- A request for the submission is queued. -/
theorem canRevive_of_queued {cfg : Config} {id : String} {s : Service} {k : ℕ} {w : Pc}
    {req : BuildAndDeployRequest} (hreq : s.shared.queue[k]? = some req)
    (hid : req.submissionId = id) (hw : s.threads[0]? = some w) (hworker : w.Worker) :
    CanRevive cfg id s := by
  induction hn : 14 * k + w.rank using Nat.strongRecOn generalizing s k w with
  | ind n ih =>
    have hallowed := not_enqueues hw (hworker.not_enqueues id) .lucky
    by_cases hidle : w = .idle
    · subst hidle
      cases hqueue : s.shared.queue with
      | nil => simp [hqueue] at hreq
      | cons head queue =>
        have hadvance : advance cfg s.shared .lucky .idle =
            some ({ s.shared with queue := queue }, .build head) := by rw [advance, hqueue]
        refine Breakable.later hallowed (Pool.run_eq_some hw hadvance) ?_
        rw [hqueue] at hreq
        cases k with
        | zero =>
          obtain rfl : head = req := by simpa using hreq
          exact canRevive_of_builds (Pool.getElem?_set hw) trivial hid
        | succ k =>
          refine ih (14 * k + (Pc.build head).rank) ?_ (by simpa using hreq) (Pool.getElem?_set hw)
            trivial rfl
          simp only [← hn, Pc.rank]
          omega
    · obtain ⟨m, w', hadvance, hworker', hrank, hqueue⟩ :=
        busy_advances cfg s.shared .lucky hworker hidle
      refine Breakable.later hallowed (Pool.run_eq_some hw hadvance) ?_
      exact ih (14 * k + w'.rank) (by omega) (hqueue ▸ hreq) (Pool.getElem?_set hw) hworker' rfl

/-- A call of `enqueue_build` is about to queue a request for the submission. -/
theorem canRevive_of_pushed {cfg : Config} {id : String} {s : Service} {i : ℕ}
    {req : BuildAndDeployRequest} (hinv : s.Inv) (hpc : s.threads[i]? = some (.enqueuePush req))
    (hid : req.submissionId = id) : CanRevive cfg id s := by
  obtain ⟨w, hw, hworker⟩ := hinv.worker
  have hne : i ≠ 0 := by
    rintro rfl
    obtain rfl := Option.some_inj.mp (hpc.symm.trans hw)
    exact hworker
  have hlast : (s.shared.queue ++ [req])[s.shared.queue.length]? = some req := by simp
  refine Breakable.later (not_enqueues hpc not_false .lucky) (Pool.run_eq_some hpc rfl) ?_
  refine canRevive_of_queued hlast hid ?_ hworker
  rw [List.getElem?_set_ne hne, hw]

/-! ## The theorem -/

theorem Service.clear_of_not_canRevive {cfg : Config} {id : String} {s : Service} (h : s.Inv)
    (hsafe : ¬CanRevive cfg id s) : s.Clear id := by
  constructor
  · intro req hreq hid
    obtain ⟨k, hk⟩ := List.getElem?_of_mem hreq
    obtain ⟨w, hw, hworker⟩ := h.worker
    exact hsafe (canRevive_of_queued hk hid hw hworker)
  · intro pc hpc hbuilds
    obtain ⟨i, hi⟩ := List.getElem?_of_mem hpc
    cases pc with
    | enqueuePush req => exact hsafe (canRevive_of_pushed h hi hbuilds)
    | build req => exact hsafe (canRevive_of_builds hi trivial hbuilds)
    | exec req obj stage => exact hsafe (canRevive_of_builds hi trivial hbuilds)
    | k8s req obj call => exact hsafe (canRevive_of_builds hi trivial hbuilds)
    | finish req obj endpointUrl namespaceName =>
      exact hsafe (canRevive_of_builds hi trivial hbuilds)
    | _ => exact hbuilds

theorem Service.Clear.not_canRevive {cfg : Config} {id : String} {s : Service} (h : s.Inv)
    (hclear : s.Clear id) : ¬CanRevive cfg id s := by
  refine not_breakable (P := fun s ↦ s.Inv ∧ s.Clear id)
    (fun s e s' hs hallowed hstep ↦ ⟨hs.1.next hstep, hs.2.next hs.1 hallowed hstep⟩) ?_ ⟨h, hclear⟩
  rintro s (call | ⟨i, env⟩) hs -
  · exact not_false
  · rintro ⟨pc, hpc, hrevives⟩
    exact hs.2.2 pc (List.mem_of_getElem? hpc) hrevives.builds

/-- The last step of a teardown brings nothing under way, and ends nothing that is. -/
theorem TearsDown.clear_iff {cfg : Config} {id : String} {s s' : Service} {e : ServiceEvent}
    (hdown : TearsDown id s e) (hstep : s.step cfg e = some s') : s'.Clear id ↔ s.Clear id := by
  cases e with
  | start call => exact hdown.elim
  | run i env =>
    obtain ⟨obj, hobj⟩ := hdown
    obtain ⟨l, pc, r, m, pc', hthreads, hi, hadvance, rfl⟩ := Pool.next_run hstep
    obtain rfl : pc = .teardownSet id obj := by
      simpa [hthreads, ← hi] using hobj
    obtain ⟨rfl, rfl⟩ := Option.some_inj.mp hadvance
    simp only [Service.Clear, hthreads, List.forall_mem_append, List.forall_mem_cons]
    simp [Shared.set, Pc.Builds]

/-- **When a teardown is final.** From its last step on, nothing sets the submission to `building`
or `ready` or starts a container for it until the next `enqueue_build`, if and only if nothing of
the submission is under way when that step is taken. -/
theorem torn_down_final_iff {cfg : Config} {id : String} {es : List ServiceEvent}
    {s s' : Service} {e : ServiceEvent} (hreach : exec (Service.step cfg) .initial es = some s)
    (hdown : TearsDown id s e) (hstep : s.step cfg e = some s') :
    (∀ es', Guarded (Service.step cfg) (fun s e ↦ ¬Enqueues id s e) s' es' →
        Guarded (Service.step cfg) (fun s e ↦ ¬Revives id s e) s' es') ↔ s.Clear id := by
  have hinv : s.Inv := exec_invariant (fun _ _ _ h hstep ↦ Service.Inv.next h hstep)
    Service.inv_initial hreach
  rw [← hdown.clear_iff hstep]
  constructor
  · intro hlaw
    refine Service.clear_of_not_canRevive (hinv.next hstep) (show ¬CanRevive cfg id s' from ?_)
    rintro ⟨es', hallowed, hbroken⟩
    exact hbroken (hlaw es' hallowed)
  · intro hclear es' hallowed
    by_contra hbroken
    exact hclear.not_canRevive (hinv.next hstep) ⟨es', hallowed, hbroken⟩

/-- In terms of what is read from outside: once nothing of a submission is under way, no container
is started for it and its status does not become `building` or `ready`, until the next
`enqueue_build`. -/
theorem Service.Clear.stays_down {cfg : Config} {id : String} {s s' : Service}
    {es : List ServiceEvent} (hclear : s.Clear id) (h : s.Inv)
    (hallowed : Guarded (Service.step cfg) (fun s e ↦ ¬Enqueues id s e) s es)
    (hexec : exec (Service.step cfg) s es = some s') :
    s'.shared.started.count id = s.shared.started.count id ∧
      ∀ status, s'.shared.status id = some status → status = .building ∨ status = .ready →
        s.shared.status id = some status := by
  have hinv := hallowed.invariant
    (P := fun t ↦ (t.Inv ∧ t.Clear id) ∧ t.shared.started.count id = s.shared.started.count id ∧
      ∀ status, t.shared.status id = some status → status = .building ∨ status = .ready →
        s.shared.status id = some status) ?_ ⟨⟨h, hclear⟩, rfl, fun _ hstatus _ ↦ hstatus⟩ hexec
  · exact hinv.2
  · rintro t e t' ⟨⟨ht, hc⟩, hstarted, hstatus⟩ hallowed hstep
    refine ⟨⟨ht.next hstep, hc.next ht hallowed hstep⟩, ?_⟩
    cases e with
    | start call =>
      obtain rfl := Option.some_inj.mp hstep
      exact ⟨hstarted, hstatus⟩
    | run i env =>
      obtain ⟨l, pc, r, m, pc', hthreads, -, hadvance, rfl⟩ := Pool.next_run hstep
      have hrevives : ¬pc.Revives id t.shared env :=
        fun hr ↦ hc.2 pc (by simp [hthreads]) hr.builds
      obtain ⟨hcount, hlive⟩ := advance_not_revives ht.deployed hrevives hadvance
      exact ⟨hcount.trans hstarted, fun status hs hl ↦ hstatus status (hlive status hs hl) hl⟩

/-! ## A build that outlives its teardown -/

def sampleRequest : BuildAndDeployRequest := ⟨"sub-1", "cpp", "http://minio:9000/sub-1"⟩

/-- The first worker takes some steps. -/
def work (n : ℕ) : List ServiceEvent := List.replicate n (.run 0 .lucky)

/-- A build is requested, and the first worker takes some steps of it; then a teardown comes up to
its last step. -/
def tornDownAfter (n : ℕ) : List ServiceEvent :=
  [.start (.enqueueBuild sampleRequest), .run 2 .lucky, .run 2 .lucky] ++ work n ++
    [.start (.teardown "sub-1"), .run 3 .lucky, .run 3 .lucky]

/-- The twelve steps of the build are over. -/
theorem torn_down_final_built : ∃ s s' : Service,
    exec (Service.step ⟨"local"⟩) .initial (tornDownAfter 12) = some s ∧
      s.shared.status "sub-1" = some .ready ∧ s.step ⟨"local"⟩ (.run 3 .lucky) = some s' ∧
      ∀ es', Guarded (Service.step ⟨"local"⟩) (fun s e ↦ ¬Enqueues "sub-1" s e) s' es' →
        Guarded (Service.step ⟨"local"⟩) (fun s e ↦ ¬Revives "sub-1" s e) s' es' := by
  have hrun : ((exec (Service.step ⟨"local"⟩) .initial (tornDownAfter 12)).any fun s ↦
      decide (s.shared.status "sub-1" = some .ready ∧ s.shared.queue = [] ∧
        s.threads = [.idle, .idle, .done none, .teardownSet "sub-1" 0])) = true := by
    decide +kernel
  obtain ⟨s, hs, h⟩ := (Option.any_eq_true _ _).mp hrun
  obtain ⟨hstatus, hqueue, hthreads⟩ := of_decide_eq_true h
  have hpc : s.threads[3]? = some (.teardownSet "sub-1" 0) := by rw [hthreads]; rfl
  have hstep : s.step ⟨"local"⟩ (.run 3 .lucky) = some _ := Pool.run_eq_some hpc rfl
  have hdown : TearsDown "sub-1" s (.run 3 .lucky) := ⟨0, hpc⟩
  refine ⟨s, _, hs, hstatus, hstep, (torn_down_final_iff hs hdown hstep).mpr ?_⟩
  simp [Service.Clear, hqueue, hthreads, Pc.Builds]

/-- The image has been built, the container not yet started. -/
theorem torn_down_revived : ∃ s s' s'' : Service,
    exec (Service.step ⟨"local"⟩) .initial (tornDownAfter 7) = some s ∧
      TearsDown "sub-1" s (.run 3 .lucky) ∧ s.step ⟨"local"⟩ (.run 3 .lucky) = some s' ∧
      s'.shared.status "sub-1" = some .tornDown ∧ s'.shared.started = [] ∧
      Guarded (Service.step ⟨"local"⟩) (fun s e ↦ ¬Enqueues "sub-1" s e) s' (work 5) ∧
      exec (Service.step ⟨"local"⟩) s' (work 5) = some s'' ∧
      s''.shared.status "sub-1" = some .ready ∧ s''.shared.started = ["sub-1"] := by
  have hrun : ((exec (Service.step ⟨"local"⟩) .initial (tornDownAfter 7)).any fun s ↦
      decide (s.threads[3]? = some (.teardownSet "sub-1" 0)) &&
      (s.step ⟨"local"⟩ (.run 3 .lucky)).any fun s' ↦
        decide (s'.shared.status "sub-1" = some .tornDown ∧ s'.shared.started = [] ∧
          Guarded (Service.step ⟨"local"⟩) (fun s e ↦ ¬Enqueues "sub-1" s e) s' (work 5)) &&
        (exec (Service.step ⟨"local"⟩) s' (work 5)).any fun s'' ↦
          decide (s''.shared.status "sub-1" = some .ready ∧ s''.shared.started = ["sub-1"])) =
      true := by decide +kernel
  obtain ⟨s, hs, h⟩ := (Option.any_eq_true _ _).mp hrun
  obtain ⟨hpc, h⟩ := Bool.and_eq_true_iff.mp h
  obtain ⟨s', hs', h⟩ := (Option.any_eq_true _ _).mp h
  obtain ⟨hdown, h⟩ := Bool.and_eq_true_iff.mp h
  obtain ⟨s'', hs'', h⟩ := (Option.any_eq_true _ _).mp h
  obtain ⟨hstatus, hstarted, hallowed⟩ := of_decide_eq_true hdown
  obtain ⟨hready, hagain⟩ := of_decide_eq_true h
  exact ⟨s, s', s'', hs, ⟨0, of_decide_eq_true hpc⟩, hs', hstatus, hstarted, hallowed, hs'', hready,
    hagain⟩

end BenchmarkPlatform.Sandbox
