import BenchmarkPlatform.Lib.Owned
import BenchmarkPlatform.Sandbox.Teardown

/-!
# Whose code answers

Docker knows images and containers by their names, Kubernetes namespaces and the pods in them. The
sandbox manager derives all these names from the first eight characters of a submission id, builds
and removes by name, and takes an object that exists already for one it has created. So the names
decide whether two submissions can get into each other's way: they cannot if and only if no two
submissions in use share their first eight characters.

The cluster is put beside the manager of `Sandbox.Service`, and every command and every call takes
its effect there. What it answers, and whether one that failed has taken effect all the same, is
read from outside; an answer that docker or Kubernetes cannot give does not occur.
-/

namespace BenchmarkPlatform.Sandbox

open Lib

/-! ## Docker and Kubernetes -/

/-- An image or a container. -/
structure Artifact where
  /-- The submission it was made for. -/
  createdFor : String
  /-- The submission whose sources are in it. -/
  code : String
  deriving DecidableEq

structure Cluster where
  images : String → Option Artifact
  containers : String → Option Artifact
  /-- The submission a namespace was created for. -/
  namespaces : String → Option String
  /-- The submission the pod of a namespace was created for. -/
  pods : String → Option String

def Cluster.empty : Cluster := ⟨fun _ ↦ none, fun _ ↦ none, fun _ ↦ none, fun _ ↦ none⟩

def imageTag (submissionId : String) : String := "contestant-" ++ shortId submissionId ++ ":latest"

def containerName (submissionId : String) : String := "contestant-" ++ shortId submissionId

def namespaceName (submissionId : String) : String := "contestant-" ++ shortId submissionId

namespace Cluster

/-- `docker build -t`, from the directory of the submission: the tag is moved to the new image. -/
def dockerBuild (c : Cluster) (id : String) : Cluster :=
  { c with images := Function.update c.images (imageTag id) (some ⟨id, id⟩) }

/-- `docker rm -f`. -/
def dockerRm (c : Cluster) (id : String) : Cluster :=
  { c with containers := Function.update c.containers (containerName id) none }

/-- `docker run --name`: the name has to be free, and the image has to be there. -/
def dockerRun (c : Cluster) (id : String) : Option Cluster :=
  match c.containers (containerName id), c.images (imageTag id) with
  | none, some image => some { c with
      containers := Function.update c.containers (containerName id) (some ⟨id, image.code⟩) }
  | _, _ => none

/-- `create_namespace`; a namespace that exists is left as it is. -/
def createNamespace (c : Cluster) (id : String) : Cluster :=
  { c with
    namespaces := Function.update c.namespaces (namespaceName id)
      (some ((c.namespaces (namespaceName id)).getD id)) }

/-- `create_pod`, in a namespace that exists; so is a pod. -/
def createPod (c : Cluster) (id : String) : Option Cluster :=
  match c.namespaces (namespaceName id) with
  | none => none
  | some _ => some { c with
      pods := Function.update c.pods (namespaceName id)
        (some ((c.pods (namespaceName id)).getD id)) }

end Cluster

/-- What a step reads from outside. -/
structure Outcome extends Env where
  /-- The command or call has taken effect. -/
  took : Bool

/-- All goes well. -/
def Outcome.lucky : Outcome := ⟨.lucky, true⟩

/-- A command that takes effect leads to `c'`, if to anything; one that does not is not answered
with success. -/
def Outcome.settle (o : Outcome) (success : Bool) (c : Cluster) (c' : Option Cluster) :
    Option Cluster :=
  if o.took then c' else if success then none else some c

/-- What the next step of a thread does to the cluster. -/
def Cluster.effect (c : Cluster) (o : Outcome) : Pc → Option Cluster
  | .exec req _ .image => o.settle o.output.isOk c (some (c.dockerBuild req.submissionId))
  | .exec req _ .remove => o.settle o.output.isOk c (some (c.dockerRm req.submissionId))
  | .exec req _ .run => o.settle o.output.isOk c (c.dockerRun req.submissionId)
  | .k8s req _ .createNamespace => o.settle o.accepted c (some (c.createNamespace req.submissionId))
  | .k8s req _ .createPod => o.settle o.accepted c (c.createPod req.submissionId)
  | .teardownExec id _ => o.settle false c (some (c.dockerRm id))
  | _ => some c

/-! ## The system -/

/-- The manager's own state, and what it commands. -/
structure Host where
  manager : Shared
  cluster : Cluster

def Host.advance (cfg : Config) (h : Host) (o : Outcome) (pc : Pc) : Option (Host × Pc) :=
  (h.cluster.effect o pc).bind fun c ↦
    (Sandbox.advance cfg h.manager o.toEnv pc).map fun r ↦ (⟨r.1, c⟩, r.2)

abbrev System := Pool Host Pc

abbrev SystemEvent := PoolEvent Call Outcome

/-- A call is made, or a thread takes its next step. -/
abbrev System.step (cfg : Config) (s : System) : SystemEvent → Option System :=
  s.next Call.entry (Host.advance cfg)

def System.initial : System := ⟨⟨Service.initial.shared, .empty⟩, Service.initial.threads⟩

def Call.submissionId : Call → String
  | .enqueueBuild req => req.submissionId
  | .teardown submissionId => submissionId

/-- The submission a thread works on. -/
def Pc.submission : Pc → Option String
  | .enqueue req | .enqueuePush req | .build req => some req.submissionId
  | .exec req _ _ => some req.submissionId
  | .k8s req _ _ => some req.submissionId
  | .finish req _ _ _ => some req.submissionId
  | .teardown submissionId => some submissionId
  | .teardownExec submissionId _ => some submissionId
  | .teardownSet submissionId _ => some submissionId
  | .idle | .fail _ _ | .done _ => none

/-- A call that the event makes has been accepted by its handler, and is for one of these
submissions. -/
def Concerns (ids : Set String) (e : SystemEvent) : Prop :=
  ∀ call, e.started = some call → call.validate = .ok () ∧ call.submissionId ∈ ids

/-- A state that operations on these submissions lead to. -/
def Reachable (cfg : Config) (ids : Set String) (s : System) : Prop :=
  ∃ es, (∀ e ∈ es, Concerns ids e) ∧ exec (System.step cfg) .initial es = some s

/-- The event is a step of an operation on the submission. -/
def OperatesOn (id : String) (s : System) (e : SystemEvent) : Prop :=
  ∃ i o pc, e = .run i o ∧ s.threads[i]? = some pc ∧ pc.submission = some id

/-! ## Isolation -/

/-- What was created for the submission is still there, under its name. -/
structure Cluster.Keeps (c c' : Cluster) (id : String) : Prop where
  images : ∀ name a, c.images name = some a → a.createdFor = id → c'.images name = some a
  containers : ∀ name a, c.containers name = some a → a.createdFor = id →
    c'.containers name = some a
  namespaces : ∀ name, c.namespaces name = some id → c'.namespaces name = some id
  pods : ∀ name, c.pods name = some id → c'.pods name = some id

/-- The container or the pod of the submission runs its own code. -/
def Cluster.Serves (c : Cluster) (id : String) : Prop :=
  c.containers (containerName id) = some ⟨id, id⟩ ∨ c.pods (namespaceName id) = some id

/-- No other code answers in the place of the submission. -/
structure Cluster.OnlyOwn (c : Cluster) (id : String) : Prop where
  container : ∀ a, c.containers (containerName id) = some a → a = ⟨id, id⟩
  pod : ∀ owner, c.pods (namespaceName id) = some owner → owner = id

/-- The step starts the container or the pod of the submission, with success. -/
def Pc.Starts (id : String) (o : Outcome) : Pc → Prop
  | .exec req _ stage => req.submissionId = id ∧ stage = .run ∧ o.output.isOk
  | .k8s req _ call => req.submissionId = id ∧ call = .createPod ∧ o.accepted
  | _ => False

/-- Submissions do not disturb each other. -/
structure Isolated (cfg : Config) (ids : Set String) : Prop where
  /-- No step of an operation on another submission touches what was created for this one. -/
  frame : ∀ s, Reachable cfg ids s → ∀ e s', Concerns ids e → s.step cfg e = some s' →
    ∀ id, ¬OperatesOn id s e → s.shared.cluster.Keeps s'.shared.cluster id
  /-- Where a submission is reported ready, only its own code answers. -/
  ready : ∀ s, Reachable cfg ids s → ∀ id, s.shared.manager.status id = some .ready →
    s.shared.cluster.OnlyOwn id
  /-- A build that has started its container or pod serves its own code. -/
  started : ∀ s, Reachable cfg ids s → ∀ i o pc s', s.threads[i]? = some pc →
    s.step cfg (.run i o) = some s' → ∀ id, pc.Starts id o → s'.shared.cluster.Serves id
  /-- It does so until an operation on the same submission takes a step. -/
  keeps : ∀ s, Reachable cfg ids s → ∀ es s', (∀ e ∈ es, Concerns ids e) →
    exec (System.step cfg) s es = some s' → ∀ id,
    Guarded (System.step cfg) (fun t e ↦ ¬OperatesOn id t e) s es →
    s.shared.cluster.Serves id → s'.shared.cluster.Serves id

/-! ## Names -/

theorem containerName_eq_iff {id id' : String} :
    containerName id = containerName id' ↔ shortId id = shortId id' := by
  rw [containerName, containerName, String.append_right_inj]

theorem imageTag_eq_iff {id id' : String} :
    imageTag id = imageTag id' ↔ shortId id = shortId id' := by
  rw [imageTag, imageTag, String.append_left_inj, String.append_right_inj]

section Names

variable {ids : Set String} (hinj : Set.InjOn shortId ids)

include hinj

theorem containerName_injOn : Set.InjOn containerName ids := fun _ hid _ hid' heq ↦
  hinj hid hid' (containerName_eq_iff.mp heq)

theorem namespaceName_injOn : Set.InjOn namespaceName ids := containerName_injOn hinj

theorem imageTag_injOn : Set.InjOn imageTag ids := fun _ hid _ hid' heq ↦
  hinj hid hid' (imageTag_eq_iff.mp heq)

end Names

/-! ## What a step can do to the cluster -/

theorem Outcome.settle_eq_some {o : Outcome} {success : Bool} {c c' : Cluster} {d : Option Cluster}
    (h : o.settle success c d = some c') :
    d = some c' ∨ success = false ∧ c' = c := by
  rw [settle] at h
  split_ifs at h with htook hsuccess
  · exact Or.inl h
  · exact Or.inr ⟨by simpa using hsuccess, (Option.some_inj.mp h).symm⟩

/-- What an operation on a submission can do to the cluster. -/
inductive Cluster.Effect (c : Cluster) (id : String) : Cluster → Prop
  | dockerBuild : Effect c id (c.dockerBuild id)
  | dockerRm : Effect c id (c.dockerRm id)
  | dockerRun {c' : Cluster} (h : c.dockerRun id = some c') : Effect c id c'
  | createNamespace : Effect c id (c.createNamespace id)
  | createPod {c' : Cluster} (h : c.createPod id = some c') : Effect c id c'

theorem Cluster.effect_cases {c c' : Cluster} {o : Outcome} {pc : Pc}
    (h : c.effect o pc = some c') : c' = c ∨ ∃ id, pc.submission = some id ∧ c.Effect id c' := by
  -- each command and each call of the source that changes the cluster
  have hsettle : ∀ {success : Bool} {d : Option Cluster} {id : String},
      o.settle success c d = some c' → pc.submission = some id →
      (d = some c' → c.Effect id c') →
      c' = c ∨ ∃ id, pc.submission = some id ∧ c.Effect id c' := by
    intro success d id hd hid heffect
    rcases Outcome.settle_eq_some hd with heq | ⟨-, heq⟩
    · exact Or.inr ⟨id, hid, heffect heq⟩
    · exact Or.inl heq
  cases pc with
  | exec req obj stage =>
    cases stage with
    | image => exact hsettle h rfl fun heq ↦ Option.some_inj.mp heq ▸ .dockerBuild
    | remove => exact hsettle h rfl fun heq ↦ Option.some_inj.mp heq ▸ .dockerRm
    | run => exact hsettle h rfl .dockerRun
    | _ => exact Or.inl (Option.some_inj.mp h).symm
  | k8s req obj call =>
    cases call with
    | createNamespace => exact hsettle h rfl fun heq ↦ Option.some_inj.mp heq ▸ .createNamespace
    | createPod => exact hsettle h rfl .createPod
    | _ => exact Or.inl (Option.some_inj.mp h).symm
  | teardownExec id obj => exact hsettle h rfl fun heq ↦ Option.some_inj.mp heq ▸ .dockerRm
  | _ => exact Or.inl (Option.some_inj.mp h).symm

namespace Cluster

theorem dockerRun_eq_some {c c' : Cluster} {id : String} (h : c.dockerRun id = some c') :
    ∃ image, c.images (imageTag id) = some image ∧ c' = { c with
      containers := Function.update c.containers (containerName id) (some ⟨id, image.code⟩) } := by
  rw [dockerRun] at h
  split at h
  · rename_i image hname himage
    exact ⟨image, himage, (Option.some_inj.mp h).symm⟩
  · simp at h

theorem createPod_eq_some {c c' : Cluster} {id : String} (h : c.createPod id = some c') :
    c' = { c with
      pods := Function.update c.pods (namespaceName id)
        (some ((c.pods (namespaceName id)).getD id)) } := by
  rw [createPod] at h
  split at h
  · simp at h
  · exact (Option.some_inj.mp h).symm

/-- Everything in the cluster belongs to one of the submissions, under its names. -/
structure Own (ids : Set String) (c : Cluster) : Prop where
  images : Owned ids imageTag (fun id ↦ (⟨id, id⟩ : Artifact)) c.images
  containers : Owned ids containerName (fun id ↦ (⟨id, id⟩ : Artifact)) c.containers
  namespaces : Owned ids namespaceName (fun id ↦ id) c.namespaces
  pods : Owned ids namespaceName (fun id ↦ id) c.pods

section Own

variable {ids : Set String} {c c' : Cluster} {id : String}

theorem own_empty : Own ids empty := ⟨Owned.empty, Owned.empty, Owned.empty, Owned.empty⟩

/-- What is found under the name of a submission is its own, so nothing else can be put there. -/
theorem Own.getD {m : String → Option String} {name : String → String}
    (h : Owned ids name (fun id ↦ id) m) (hinj : Set.InjOn name ids) {w : String} (hw : w ∈ ids) :
    (m (name w)).getD w = w := by
  cases hm : m (name w) with
  | none => rfl
  | some owner => exact h.eq_own hinj hw hm

theorem Own.effect (h : c.Own ids) (hinj : Set.InjOn shortId ids) (hid : id ∈ ids)
    (heffect : c.Effect id c') : c'.Own ids := by
  have hspaces := namespaceName_injOn hinj
  cases heffect with
  | dockerBuild => exact ⟨h.images.put hid, h.containers, h.namespaces, h.pods⟩
  | dockerRm => exact ⟨h.images, h.containers.drop _, h.namespaces, h.pods⟩
  | dockerRun hrun =>
    obtain ⟨image, himage, rfl⟩ := dockerRun_eq_some hrun
    obtain rfl := h.images.eq_own (imageTag_injOn hinj) hid himage
    exact ⟨h.images, h.containers.put hid, h.namespaces, h.pods⟩
  | createNamespace =>
    refine ⟨h.images, h.containers, ?_, h.pods⟩
    rw [createNamespace, Own.getD h.namespaces hspaces hid]
    exact h.namespaces.put hid
  | createPod hpod =>
    rw [createPod_eq_some hpod, Own.getD h.pods hspaces hid]
    exact ⟨h.images, h.containers, h.namespaces, h.pods.put hid⟩

theorem Keeps.refl (c : Cluster) (id : String) : c.Keeps c id :=
  ⟨fun _ _ h _ ↦ h, fun _ _ h _ ↦ h, fun _ h ↦ h, fun _ h ↦ h⟩

/-- **The frame.** An operation on one submission keeps what was created for another. -/
theorem Own.keeps (h : c.Own ids) (hinj : Set.InjOn shortId ids) (hid : id ∈ ids)
    (heffect : c.Effect id c') {other : String} (hne : id ≠ other) : c.Keeps c' other := by
  have hnames := containerName_injOn hinj
  have hspaces := namespaceName_injOn hinj
  have hartifact : ∀ a : Artifact, a.createdFor = other → a ≠ ⟨id, id⟩ := by
    rintro a rfl rfl
    exact hne rfl
  cases heffect with
  | dockerBuild =>
    exact { Keeps.refl c other with
      images := fun name a ha hfor ↦
        h.images.update_of_ne (imageTag_injOn hinj) hid ha (hartifact a hfor) _ }
  | dockerRm =>
    exact { Keeps.refl c other with
      containers := fun name a ha hfor ↦
        h.containers.update_of_ne hnames hid ha (hartifact a hfor) _ }
  | dockerRun hrun =>
    obtain ⟨image, -, rfl⟩ := dockerRun_eq_some hrun
    exact { Keeps.refl c other with
      containers := fun name a ha hfor ↦
        h.containers.update_of_ne hnames hid ha (hartifact a hfor) _ }
  | createNamespace =>
    exact { Keeps.refl c other with
      namespaces := fun name ha ↦ h.namespaces.update_of_ne hspaces hid ha hne.symm _ }
  | createPod hpod =>
    rw [createPod_eq_some hpod]
    exact { Keeps.refl c other with
      pods := fun name ha ↦ h.pods.update_of_ne hspaces hid ha hne.symm _ }

end Own

end Cluster

/-! ## The submissions in a state -/

/-- The requests that wait, and the ids in the map, are among these. -/
structure Shared.Within (ids : Set String) (s : Shared) : Prop where
  queue : ∀ req ∈ s.queue, req.submissionId ∈ ids
  deployments : ∀ id obj, s.deployments id = some obj → id ∈ ids

/-- The thread works on one of these, if on any. -/
def Pc.Within (ids : Set String) (pc : Pc) : Prop := ∀ id, pc.submission = some id → id ∈ ids

section Within

variable {ids : Set String} {cfg : Config} {s t : Shared} {req : BuildAndDeployRequest} {obj : ℕ}

theorem Shared.Within.store (h : s.Within ids) {id : String} (hid : id ∈ ids)
    (status : BuildStatus) : (s.store id status).Within ids := by
  refine ⟨h.queue, fun id' obj hobj ↦ ?_⟩
  rcases eq_or_ne id' id with rfl | hne
  · exact hid
  · exact h.deployments id' obj ((Function.update_of_ne hne _ _).symm.trans hobj)

/-- What changes neither the queue nor the map. -/
theorem Shared.Within.congr (h : s.Within ids) (hqueue : t.queue = s.queue)
    (hdeployments : t.deployments = s.deployments) : t.Within ids :=
  ⟨hqueue ▸ h.queue, hdeployments ▸ h.deployments⟩

theorem within_some {pc : Pc} {id : String} (hpc : pc.submission = some id) (hid : id ∈ ids) :
    pc.Within ids := fun id' heq ↦ by
  obtain rfl := Option.some_inj.mp (hpc.symm.trans heq)
  exact hid

theorem within_none {pc : Pc} (hpc : pc.submission = none) : pc.Within ids := fun id heq ↦ by
  rw [hpc] at heq
  simp at heq

theorem within_buildAndDeploy (hid : req.submissionId ∈ ids) :
    (buildAndDeploy cfg req obj).Within ids := by
  rw [buildAndDeploy]
  split_ifs <;> first | exact within_some rfl hid | exact within_none rfl

theorem within_afterCommand (hid : req.submissionId ∈ ids) (stage : Stage)
    (output : Except String String) : (afterCommand req obj stage output).Within ids := by
  cases stage <;> cases output <;> first | exact within_some rfl hid | exact within_none rfl

theorem within_afterCall (hid : req.submissionId ∈ ids) (call : K8sCall)
    (created : Except String Bool) : (afterCall req obj call created).Within ids := by
  cases call <;> rcases created with _ | _ | _ <;>
    first | exact within_some rfl hid | exact within_none rfl

/-- **The step lemma.** A thread goes on with the submission it works on, or with one that waits. -/
theorem advance_within {env : Env} {pc pc' : Pc} (hs : s.Within ids) (hpc : pc.Within ids)
    (h : advance cfg s env pc = some (t, pc')) : t.Within ids ∧ pc'.Within ids := by
  cases pc with
  | enqueue req =>
    obtain ⟨rfl, rfl⟩ := Option.some_inj.mp h
    exact ⟨hs.store (hpc _ rfl) _, hpc⟩
  | enqueuePush req =>
    obtain ⟨rfl, rfl⟩ := Option.some_inj.mp h
    refine ⟨⟨fun r hr ↦ ?_, hs.deployments⟩, within_none rfl⟩
    rcases List.mem_append.mp hr with hr' | hr'
    · exact hs.queue r hr'
    · exact List.mem_singleton.mp hr' ▸ hpc _ rfl
  | idle =>
    rw [advance] at h
    split at h
    case h_1 => simp at h
    case h_2 req queue hqueue =>
      obtain ⟨rfl, rfl⟩ := Option.some_inj.mp h
      have hmem : ∀ r ∈ req :: queue, r.submissionId ∈ ids := hqueue ▸ hs.queue
      exact ⟨⟨fun r hr ↦ hmem r (List.mem_cons_of_mem _ hr), hs.deployments⟩,
        within_some rfl (hmem req List.mem_cons_self)⟩
  | build req =>
    rw [advance] at h
    split at h
    all_goals obtain ⟨rfl, rfl⟩ := Option.some_inj.mp h
    · exact ⟨hs.congr rfl rfl, within_buildAndDeploy (hpc _ rfl)⟩
    · exact ⟨hs.store (hpc _ rfl) _, within_buildAndDeploy (hpc _ rfl)⟩
  | exec req obj stage =>
    obtain ⟨rfl, rfl⟩ := Option.some_inj.mp h
    obtain ⟨hqueue, hdeployments⟩ := command_frame s req obj stage env.output
    exact ⟨hs.congr hqueue hdeployments, within_afterCommand (hpc _ rfl) stage env.output⟩
  | k8s req obj call =>
    obtain ⟨rfl, rfl⟩ := Option.some_inj.mp h
    refine ⟨?_, within_afterCall (hpc _ rfl) call env.created⟩
    split_ifs
    · exact hs.congr rfl rfl
    · exact hs
  | finish req obj endpointUrl namespaceName =>
    obtain ⟨rfl, rfl⟩ := Option.some_inj.mp h
    exact ⟨hs.congr rfl rfl, within_none rfl⟩
  | fail obj errMsg =>
    obtain ⟨rfl, rfl⟩ := Option.some_inj.mp h
    exact ⟨hs.congr rfl rfl, within_none rfl⟩
  | teardown id =>
    rw [advance] at h
    split at h
    all_goals obtain ⟨rfl, rfl⟩ := Option.some_inj.mp h
    · exact ⟨hs, within_none rfl⟩
    · refine ⟨hs, ?_⟩
      split_ifs
      · exact hpc
      · exact hpc
  | teardownExec id obj =>
    obtain ⟨rfl, rfl⟩ := Option.some_inj.mp h
    exact ⟨hs, hpc⟩
  | teardownSet id obj =>
    obtain ⟨rfl, rfl⟩ := Option.some_inj.mp h
    exact ⟨hs.congr rfl rfl, within_none rfl⟩
  | done result => simp [advance] at h

end Within

/-! ## Distinct names -/

/-- What holds of every state when no two submissions have the same names. -/
structure System.Inv (ids : Set String) (s : System) : Prop where
  manager : s.shared.manager.Within ids
  threads : ∀ pc ∈ s.threads, pc.Within ids
  cluster : s.shared.cluster.Own ids

/-- **What a step of a thread does**, to the manager and to the cluster. -/
theorem Host.advance_eq_some {cfg : Config} {h h' : Host} {o : Outcome} {pc pc' : Pc}
    (hstep : h.advance cfg o pc = some (h', pc')) : h.cluster.effect o pc = some h'.cluster ∧
      Sandbox.advance cfg h.manager o.toEnv pc = some (h'.manager, pc') := by
  obtain ⟨c, hc, hmap⟩ := Option.bind_eq_some_iff.mp hstep
  obtain ⟨⟨m, q⟩, hadvance, heq⟩ := Option.map_eq_some_iff.mp hmap
  obtain ⟨rfl, rfl⟩ := heq
  exact ⟨hc, hadvance⟩

section Distinct

variable {cfg : Config} {ids : Set String} {s s' : System} {e : SystemEvent}

theorem System.inv_initial : System.initial.Inv ids where
  manager := ⟨fun _ hreq ↦ absurd hreq List.not_mem_nil, nofun⟩
  threads pc hpc := by
    rcases List.mem_pair.mp hpc with rfl | rfl
    · exact within_none rfl
    · exact within_none rfl
  cluster := Cluster.own_empty

theorem System.Inv.next (h : s.Inv ids) (hinj : Set.InjOn shortId ids) (he : Concerns ids e)
    (hstep : s.step cfg e = some s') : s'.Inv ids := by
  cases e with
  | start call =>
    obtain rfl := Option.some_inj.mp hstep
    refine ⟨h.manager, Pool.forall_start h.threads ?_, h.cluster⟩
    have hid := (he call rfl).2
    cases call with
    | enqueueBuild req => exact within_some rfl hid
    | teardown id => exact within_some rfl hid
  | run i o =>
    obtain ⟨l, pc, r, t, pc', hthreads, -, hadvance, rfl⟩ := Pool.next_run hstep
    have hpcs : ∀ q ∈ l ++ pc :: r, q.Within ids := hthreads ▸ h.threads
    have hpc := hpcs pc (List.mem_append_right _ List.mem_cons_self)
    obtain ⟨heffect, hmanager⟩ := Host.advance_eq_some hadvance
    obtain ⟨hwithin, hpc'⟩ := advance_within h.manager hpc hmanager
    refine ⟨hwithin, Pool.forall_run hpcs (fun _ hq ↦ hq) hpc', ?_⟩
    rcases Cluster.effect_cases heffect with heq | ⟨id, hid, hcases⟩
    · rw [heq]
      exact h.cluster
    · exact h.cluster.effect hinj (hpc id hid) hcases

theorem Reachable.inv (h : Reachable cfg ids s) (hinj : Set.InjOn shortId ids) : s.Inv ids := by
  obtain ⟨es, hconcerns, hexec⟩ := h
  exact (guarded_of_forall_mem _ hconcerns _).invariant
    (fun s e s' hs he hstep ↦ hs.next hinj he hstep) System.inv_initial hexec

theorem Cluster.Own.onlyOwn {c : Cluster} (h : c.Own ids) (hinj : Set.InjOn shortId ids)
    {id : String} (hid : id ∈ ids) : c.OnlyOwn id :=
  ⟨fun _ ha ↦ h.containers.eq_own (containerName_injOn hinj) hid ha,
    fun _ ha ↦ h.pods.eq_own (namespaceName_injOn hinj) hid ha⟩

/-- One step keeps what was created for the submissions it does not work on. -/
theorem System.Inv.keeps (h : s.Inv ids) (hinj : Set.InjOn shortId ids)
    (hstep : s.step cfg e = some s') {id : String} (hother : ¬OperatesOn id s e) :
    s.shared.cluster.Keeps s'.shared.cluster id := by
  cases e with
  | start call =>
    obtain rfl := Option.some_inj.mp hstep
    exact Cluster.Keeps.refl _ id
  | run i o =>
    obtain ⟨l, pc, r, t, pc', hthreads, hi, hadvance, rfl⟩ := Pool.next_run hstep
    have hget : s.threads[i]? = some pc := by
      rw [hthreads, ← hi, List.getElem?_append_right le_rfl, Nat.sub_self]
      rfl
    rcases Cluster.effect_cases (Host.advance_eq_some hadvance).1 with heq | ⟨id', hid', hcases⟩
    · dsimp only
      rw [heq]
      exact Cluster.Keeps.refl _ id
    · have hmem := h.threads pc (List.mem_of_getElem? hget) id' hid'
      refine h.cluster.keeps hinj hmem hcases ?_
      rintro rfl
      exact hother ⟨i, o, pc, rfl, hget, hid'⟩

theorem Cluster.Serves.of_keeps {c c' : Cluster} {id : String} (h : c.Serves id)
    (hkeeps : c.Keeps c' id) : c'.Serves id :=
  h.imp (fun hc ↦ hkeeps.containers _ _ hc rfl) (hkeeps.pods _)

/-- A container or pod that is started successfully is the submission's own. -/
theorem System.Inv.started (h : s.Inv ids) (hinj : Set.InjOn shortId ids) {i : ℕ} {o : Outcome}
    {pc : Pc} (hpc : s.threads[i]? = some pc) (hstep : s.step cfg (.run i o) = some s')
    {id : String} (hstarts : pc.Starts id o) : s'.shared.cluster.Serves id := by
  obtain ⟨l, pc₁, r, t, pc', hthreads, hi, hadvance, rfl⟩ := Pool.next_run hstep
  have hget : s.threads[i]? = some pc₁ := by
    rw [hthreads, ← hi, List.getElem?_append_right le_rfl, Nat.sub_self]
    rfl
  obtain rfl := Option.some_inj.mp (hpc.symm.trans hget)
  have heffect := (Host.advance_eq_some hadvance).1
  have hwithin := h.threads pc (List.mem_of_getElem? hpc)
  dsimp only
  cases pc with
  | exec req obj stage =>
    obtain ⟨rfl, rfl, hok⟩ := hstarts
    rcases Outcome.settle_eq_some heffect with hrun | ⟨hfalse, -⟩
    · obtain ⟨image, himage, heq⟩ := Cluster.dockerRun_eq_some hrun
      obtain rfl := h.cluster.images.eq_own (imageTag_injOn hinj) (hwithin _ rfl) himage
      rw [heq]
      exact Or.inl (Function.update_self _ _ _)
    · rw [hok] at hfalse
      simp at hfalse
  | k8s req obj call =>
    obtain ⟨rfl, rfl, hcreated⟩ := hstarts
    rcases Outcome.settle_eq_some heffect with hpod | ⟨hfalse, -⟩
    · rw [Cluster.createPod_eq_some hpod,
        Cluster.Own.getD h.cluster.pods (namespaceName_injOn hinj) (hwithin _ rfl)]
      exact Or.inr (Function.update_self _ _ _)
    · rw [hcreated] at hfalse
      simp at hfalse
  | _ => exact hstarts.elim

/-- **Distinct names isolate.** -/
theorem isolated_of_injOn (hinj : Set.InjOn shortId ids) : Isolated cfg ids where
  frame s hs e s' _ hstep id hother := (hs.inv hinj).keeps hinj hstep hother
  ready s hs id hready := by
    obtain ⟨obj, hobj, -⟩ := Option.bind_eq_some_iff.mp hready
    exact (hs.inv hinj).cluster.onlyOwn hinj ((hs.inv hinj).manager.deployments id obj hobj)
  started s hs i o pc s' hpc hstep id hstarts := (hs.inv hinj).started hinj hpc hstep hstarts
  keeps s hs es s' hconcerns hexec id hguard hserves := by
    have hinv := hs.inv hinj
    clear hs
    induction es generalizing s with
    | nil =>
      obtain rfl := Option.some_inj.mp hexec
      exact hserves
    | cons e es ih =>
      obtain ⟨t, ht, hrest⟩ := exec_cons_eq_some.mp hexec
      rw [guarded_cons ht] at hguard
      have he := hconcerns e List.mem_cons_self
      exact ih t (fun e' he' ↦ hconcerns e' (List.mem_cons_of_mem e he')) hrest hguard.2
        (hserves.of_keeps (hinv.keeps hinj ht hguard.1)) (hinv.next hinj he ht)

end Distinct

/-! ## Shared names -/

section Shared

variable {cfg : Config} {ids : Set String} {s s' : System}

theorem Reachable.next {e : SystemEvent} (h : Reachable cfg ids s) (he : Concerns ids e)
    (hstep : s.step cfg e = some s') : Reachable cfg ids s' := by
  obtain ⟨es, hconcerns, hexec⟩ := h
  refine ⟨es ++ [e], fun e' he' ↦ ?_, ?_⟩
  · rcases List.mem_append.mp he' with he' | he'
    · exact hconcerns e' he'
    · exact List.mem_singleton.mp he' ▸ he
  · rw [exec_append, hexec, Option.bind_some, exec_cons, hstep]
    rfl

/-- The steps of a thread that runs alone. -/
def soloStep (cfg : Config) (q : Host × Pc) (o : Outcome) : Option (Host × Pc) :=
  q.1.advance cfg o q.2

theorem Reachable.solo (h : Reachable cfg ids s) {i : ℕ} {pc pc' : Pc} {h' : Host}
    {os : List Outcome} (hpc : s.threads[i]? = some pc)
    (hsolo : exec (soloStep cfg) (s.shared, pc) os = some (h', pc')) :
    Reachable cfg ids ⟨h', s.threads.set i pc'⟩ := by
  obtain ⟨es, hconcerns, hexec⟩ := h
  refine ⟨es ++ os.map (.run i), fun e he ↦ ?_, ?_⟩
  · rcases List.mem_append.mp he with he | he
    · exact hconcerns e he
    · obtain ⟨o, -, rfl⟩ := List.mem_map.mp he
      exact fun call hcall ↦ by simp [PoolEvent.started] at hcall
  · rw [exec_append, hexec, Option.bind_some]
    exact Pool.exec_solo hpc hsolo

/-- An idle worker can take up a request, while the other threads stay where they are. -/
theorem Reachable.exists_building (h : Reachable cfg ids s) {i : ℕ}
    (hidle : s.threads[i]? = some .idle) (hqueue : s.shared.manager.queue = [])
    {req : BuildAndDeployRequest} (hvalidate : req.validate = .ok ())
    (hid : req.submissionId ∈ ids) :
    ∃ m obj threads, Reachable cfg ids ⟨⟨m, s.shared.cluster⟩, threads⟩ ∧
      threads[i]? = some (buildAndDeploy cfg req obj) ∧
      (∀ j pc, j ≠ i → s.threads[j]? = some pc → threads[j]? = some pc) ∧ m.queue = [] ∧
      m.deployments req.submissionId = some obj ∧ obj < m.objects.length := by
  obtain ⟨⟨m, c⟩, threads⟩ := s
  have hstart : Reachable cfg ids ⟨⟨m, c⟩, threads ++ [.enqueue req]⟩ :=
    h.next (e := .start (.enqueueBuild req))
      (fun call hcall ↦ Option.some_inj.mp hcall ▸ ⟨hvalidate, hid⟩) rfl
  have hplace : (threads ++ [Pc.enqueue req])[threads.length]? = some (.enqueue req) := by
    rw [List.getElem?_append_right le_rfl, Nat.sub_self]
    rfl
  -- the request is stored and queued
  have hpush : exec (soloStep cfg) (⟨m, c⟩, .enqueue req) [.lucky, .lucky]
      = some (⟨{ m.store req.submissionId .pendingBuild with queue := m.queue ++ [req] }, c⟩,
          .done none) := rfl
  rw [show m.queue = [] from hqueue, List.nil_append] at hpush
  have hqueued := hstart.solo hplace hpush
  have hwait : ((threads ++ [Pc.enqueue req]).set threads.length (.done none))
      = threads ++ [.done none] := by
    rw [List.set_append_right _ _ le_rfl, Nat.sub_self]
    rfl
  rw [hwait] at hqueued
  have hkeep : ∀ j pc, threads[j]? = some pc → (threads ++ [Pc.done none])[j]? = some pc :=
    fun j pc hpc ↦ (List.getElem?_append_left (List.getElem?_eq_some_iff.mp hpc).1).trans hpc
  -- the worker takes it from the queue, and finds the object that was stored
  have htake : exec (soloStep cfg)
      (⟨{ m.store req.submissionId .pendingBuild with queue := [req] }, c⟩, .idle) [.lucky, .lucky]
      = some (⟨Shared.set { m.store req.submissionId .pendingBuild with queue := [] }
          m.objects.length fun d ↦ { d with status := .building }, c⟩,
          buildAndDeploy cfg req m.objects.length) := by
    simp [exec, soloStep, Host.advance, Cluster.effect, advance, Shared.store]
  have hbuilding := hqueued.solo (hkeep i _ hidle) htake
  refine ⟨_, m.objects.length, _, hbuilding, Pool.getElem?_set (hkeep i _ hidle),
    fun j pc hne hpc ↦ ?_, rfl, Function.update_self _ _ _, ?_⟩
  · rw [List.getElem?_set_ne hne.symm]
    exact hkeep j pc hpc
  · simp [Shared.set, Shared.store]

theorem reachable_initial : Reachable cfg ids .initial := ⟨[], nofun, rfl⟩

/-- A request that its handler accepts. -/
def goRequest (id : String) : BuildAndDeployRequest := ⟨id, "go", "http://minio:9000/source"⟩

theorem validate_goRequest {id : String} (hvalid : ValidId id) :
    (goRequest id).validate = .ok () := by
  simp [BuildAndDeployRequest.validate, goRequest, hvalid.1]

/-- A local build up to the point where its image is built next. -/
theorem solo_goRequest (m : Shared) (c : Cluster) (id : String) (obj : ℕ) :
    exec (soloStep cfg) (⟨m, c⟩, .exec (goRequest id) obj .mkdir) (List.replicate 4 .lucky)
      = some (⟨m, c⟩, .exec (goRequest id) obj .image) := by
  simp [exec, soloStep, Host.advance, Cluster.effect, advance, afterCommand, Shared.command,
    goRequest, Outcome.lucky, Env.lucky, List.replicate]

theorem advance_image (m : Shared) (c : Cluster) (id : String) (obj : ℕ) :
    Host.advance cfg ⟨m, c⟩ .lucky (.exec (goRequest id) obj .image)
      = some (⟨m.command (goRequest id) obj .image (.ok ""), c.dockerBuild id⟩,
          .exec (goRequest id) obj .network) := rfl

theorem buildAndDeploy_local (hmode : cfg.mode = "local") {id : String} (hvalid : ValidId id)
    (obj : ℕ) : buildAndDeploy cfg (goRequest id) obj = .exec (goRequest id) obj .mkdir := by
  have hid : ¬¬ValidId (goRequest id).submissionId := not_not_intro hvalid
  have htemplate : dockerfileTemplate (goRequest id).language ≠ "" := by
    change dockerfileTemplate "go" ≠ ""
    decide +kernel
  rw [buildAndDeploy, if_neg hid, if_pos hmode, if_neg htemplate]

/-- Whoever is about to build an image does not have the tag of an image that is there. -/
theorem Isolated.shortId_ne (h : Isolated cfg ids) (hs : Reachable cfg ids s) {i obj : ℕ}
    {a b : String} (hpc : s.threads[i]? = some (.exec (goRequest b) obj .image))
    (himage : s.shared.cluster.images (imageTag a) = some ⟨a, a⟩) (hne : a ≠ b) :
    shortId a ≠ shortId b := by
  obtain ⟨⟨m, c⟩, threads⟩ := s
  intro hshort
  have hother : ¬OperatesOn a ⟨⟨m, c⟩, threads⟩ (.run i .lucky) := by
    rintro ⟨j, o, pc, heq, hj, hsubmission⟩
    obtain ⟨rfl, -⟩ := PoolEvent.run.inj heq
    obtain rfl := Option.some_inj.mp (hpc.symm.trans hj)
    exact hne (Option.some_inj.mp hsubmission).symm
  have hframe := h.frame _ hs (.run i .lucky) _ nofun
    (Pool.run_eq_some hpc (advance_image m c b obj)) a hother
  have hkept := hframe.images (imageTag a) ⟨a, a⟩ himage rfl
  dsimp only [Cluster.dockerBuild] at hkept
  rw [imageTag_eq_iff.mpr hshort, Function.update_self, Option.some_inj, Artifact.mk.injEq] at hkept
  exact hne hkept.1.symm

/-- **In local mode** a build takes the tag away from the image of a submission that shares its
first eight characters. -/
theorem not_isolated_local (hmode : cfg.mode = "local") {a b : String} (ha : a ∈ ids) (hb : b ∈ ids)
    (hvalida : ValidId a) (hvalidb : ValidId b) (hne : a ≠ b) (hshort : shortId a = shortId b) :
    ¬Isolated cfg ids := by
  intro hisolated
  -- one worker builds the image of `a`
  obtain ⟨m₁, obj₁, threads₁, hreach₁, hpc₁, hkeep₁, hqueue₁, -⟩ :=
    reachable_initial.exists_building (i := 0) rfl rfl (validate_goRequest hvalida) ha
  rw [buildAndDeploy_local hmode hvalida] at hpc₁
  have hbuilt := (hreach₁.solo hpc₁ (solo_goRequest _ _ a obj₁)).next (e := .run 0 .lucky) nofun
    (Pool.run_eq_some (Pool.getElem?_set hpc₁) (advance_image _ _ a obj₁))
  have hidle : ((threads₁.set 0 (.exec (goRequest a) obj₁ .image)).set 0
      (.exec (goRequest a) obj₁ .network))[1]? = some .idle := by
    rw [List.getElem?_set_ne (by decide), List.getElem?_set_ne (by decide)]
    exact hkeep₁ 1 .idle (by decide) rfl
  -- the other comes to the point where the image of `b` is built next
  obtain ⟨m₂, obj₂, threads₂, hreach₂, hpc₂, -⟩ := hbuilt.exists_building hidle hqueue₁
    (validate_goRequest hvalidb) hb
  rw [buildAndDeploy_local hmode hvalidb] at hpc₂
  have hready := hreach₂.solo hpc₂ (solo_goRequest _ _ b obj₂)
  exact hisolated.shortId_ne hready (Pool.getElem?_set hpc₂) (Function.update_self _ _ _) hne hshort

/-- The calls of a build in Kubernetes mode. -/
theorem solo_calls (m : Shared) (c : Cluster) (id : String) (obj : ℕ) :
    exec (soloStep cfg) (⟨m, c⟩, .k8s (goRequest id) obj .createNamespace) (List.replicate 6 .lucky)
      = some (⟨Shared.set { m with started := m.started ++ [id] } obj fun d ↦ { d with
            status := .ready
            endpointUrl := "http://exchange-service.contestant-" ++ shortId id ++
              ".svc.cluster.local:8080"
            namespaceName := "contestant-" ++ shortId id },
          { c.createNamespace id with
            pods := Function.update c.pods (namespaceName id)
              (some ((c.pods (namespaceName id)).getD id)) }⟩, .idle) := by
  simp [exec, soloStep, Host.advance, Cluster.effect, Cluster.createNamespace, Cluster.createPod,
    advance, afterCall, goRequest, Outcome.lucky, Outcome.settle, Env.lucky, Env.accepted,
    List.replicate]

/-- The status of an object that is in the map. -/
theorem Shared.status_set_of_lt {s : Shared} {id : String} {obj : ℕ} {st : BuildStatus}
    {f : DeploymentStatus → DeploymentStatus} (hobj : s.deployments id = some obj)
    (hlt : obj < s.objects.length) (hf : ∀ d, (f d).status = st) :
    (s.set obj f).status id = some st := by
  have hmap : (s.set obj f).deployments id = some obj := hobj
  rw [Shared.status, hmap, Option.bind_some, Shared.set]
  simp [List.getElem?_eq_getElem hlt, hf]

theorem buildAndDeploy_k8s (hmode : cfg.mode = "k8s") {id : String} (hvalid : ValidId id)
    (obj : ℕ) :
    buildAndDeploy cfg (goRequest id) obj = .k8s (goRequest id) obj .createNamespace := by
  have hid : ¬¬ValidId (goRequest id).submissionId := not_not_intro hvalid
  rw [buildAndDeploy, if_neg hid, if_neg (by simp [hmode]), if_pos hmode]

/-- **In Kubernetes mode** a submission is reported ready on the pod of another one that shares its
first eight characters. -/
theorem not_isolated_k8s (hmode : cfg.mode = "k8s") {a b : String} (ha : a ∈ ids) (hb : b ∈ ids)
    (hvalida : ValidId a) (hvalidb : ValidId b) (hne : a ≠ b) (hshort : shortId a = shortId b) :
    ¬Isolated cfg ids := by
  intro hisolated
  -- the first worker deploys `a`, and then `b`
  obtain ⟨m₁, obj₁, threads₁, hreach₁, hpc₁, -, hqueue₁, -⟩ :=
    reachable_initial.exists_building (i := 0) rfl rfl (validate_goRequest hvalida) ha
  rw [buildAndDeploy_k8s hmode hvalida] at hpc₁
  have hdeployed := hreach₁.solo hpc₁ (solo_calls m₁ _ a obj₁)
  obtain ⟨m₂, obj₂, threads₂, hreach₂, hpc₂, -, -, hobj, hlt⟩ :=
    hdeployed.exists_building (Pool.getElem?_set hpc₁) hqueue₁ (validate_goRequest hvalidb) hb
  rw [buildAndDeploy_k8s hmode hvalidb] at hpc₂
  have hready := hisolated.ready _ (hreach₂.solo hpc₂ (solo_calls m₂ _ b obj₂)) b ?_
  · have hpod := hready.pod a
    rw [show namespaceName b = namespaceName a from containerName_eq_iff.mpr hshort.symm] at hpod
    exact hne (hpod (by simp [System.initial, Cluster.empty]))
  · exact Shared.status_set_of_lt (s := { m₂ with started := m₂.started ++ [b] }) hobj hlt
      fun _ ↦ rfl

end Shared

/-- **Submissions do not disturb each other** if and only if no two of them share their first eight
characters. -/
theorem isolated_iff {cfg : Config} (hmode : cfg.mode = "local" ∨ cfg.mode = "k8s")
    {ids : Set String} (hvalid : ∀ id ∈ ids, ValidId id) :
    Isolated cfg ids ↔ Set.InjOn shortId ids := by
  refine ⟨fun hisolated a ha b hb hshort ↦ ?_, isolated_of_injOn⟩
  by_contra hne
  rcases hmode with hmode | hmode
  · exact not_isolated_local hmode ha hb (hvalid a ha) (hvalid b hb) hne hshort hisolated
  · exact not_isolated_k8s hmode ha hb (hvalid a ha) (hvalid b hb) hne hshort hisolated

theorem isolated_iff_distinct : Isolated ⟨"local"⟩ {"alpha-01", "bravo-01"} := by
  refine (isolated_iff (Or.inl rfl) fun id hid ↦ ?_).mpr fun a ha b hb hshort ↦ ?_
  · rcases hid with rfl | rfl
    · decide
    · decide
  · rcases ha with rfl | rfl <;> rcases hb with rfl | rfl
    · rfl
    · exact absurd hshort (by decide)
    · exact absurd hshort (by decide)
    · rfl

/-- Two submissions of one team, numbered at the end. -/
theorem numbered_not_isolated : ¬∀ (cfg : Config) (ids : Set String),
    cfg.mode = "local" ∨ cfg.mode = "k8s" → (∀ id ∈ ids, ValidId id) → Isolated cfg ids := by
  intro h
  have hvalid : ∀ id ∈ ({"team-alpha-1", "team-alpha-2"} : Set String), ValidId id := by
    intro id hid
    rcases hid with rfl | rfl
    · decide
    · decide
  have hisolated := h ⟨"local"⟩ {"team-alpha-1", "team-alpha-2"} (Or.inl rfl) hvalid
  exact not_isolated_local rfl (Or.inl rfl) (Or.inr rfl) (hvalid _ (Or.inl rfl))
    (hvalid _ (Or.inr rfl)) (by decide) (by decide) hisolated

end BenchmarkPlatform.Sandbox
