import Mathlib.Algebra.GroupWithZero.Nat
import BenchmarkPlatform.Sandbox.Teardown

/-!
# No build is lost

A build request passes through three hands: the thread of its handler, which stores a status and
then queues the request, the queue, and a worker. Calls interleave with both workers and with each
other, also for the same submission, and a build does not keep the status object that was stored for
it but looks for the one in the map.

Still, whenever a deployment is open, pending or building, somebody is left who will close it, or
its build has been abandoned (`Service.Covered`): when a call of the Kubernetes client throws, the
worker goes back to its queue and the status stays `building`. The queue hands the requests on in
the order they came, each once. And the workers always get through: when no more calls come, the
service comes to rest after a bounded number of steps, whatever the commands print and whatever
fails, with every other deployment closed.
-/

namespace BenchmarkPlatform.Sandbox

open Lib

/-! ## Open deployments -/

/-- Neither ready nor failed nor torn down. -/
def BuildStatus.Open : BuildStatus → Prop
  | .pendingBuild | .building => True
  | .ready | .failed | .tornDown => False

instance : DecidablePred BuildStatus.Open
  | .pendingBuild | .building => isTrue trivial
  | .ready | .failed | .tornDown => isFalse not_false

namespace Shared

/-- The object is the one in the map, and open. -/
def Open (s : Shared) (id : String) (obj : ℕ) : Prop :=
  s.deployments id = some obj ∧ ∃ d, s.objects[obj]? = some d ∧ d.status.Open

def Queued (s : Shared) (id : String) : Prop := ∃ req ∈ s.queue, req.submissionId = id

end Shared

/-- The thread will close the object of the submission, if it is still the one in the map when it
gets there. -/
def Pc.Covers (id : String) (obj : ℕ) : Pc → Prop
  | .enqueuePush req => req.submissionId = id
  | .build req => req.submissionId = id
  | .exec _ o _ => o = obj
  | .k8s _ o _ => o = obj
  | .finish _ o _ _ => o = obj
  | .fail o _ => o = obj
  | _ => False

/-- The object whose build the thread abandons, as a call of the Kubernetes client throws. -/
def Pc.abandons (env : Env) : Pc → List ℕ
  | .k8s _ obj _ =>
    match env.created with
    | .error _ => [obj]
    | .ok _ => []
  | _ => []

def Service.abandons (s : Service) : ServiceEvent → List ℕ
  | .start _ => []
  | .run i env => (s.threads[i]?).elim [] (Pc.abandons env)

/-- Every open deployment is in somebody's hands, or abandoned. -/
def Service.Covered (abandoned : List ℕ) (s : Service) : Prop := ∀ id obj, s.shared.Open id obj →
  s.shared.Queued id ∨ (∃ pc ∈ s.threads, pc.Covers id obj) ∨ obj ∈ abandoned

namespace Shared

variable {s : Shared} {id : String} {obj : ℕ}

theorem Open.of_set {o : ℕ} {f : DeploymentStatus → DeploymentStatus}
    (h : (s.set o f).Open id obj) (hne : obj ≠ o) : s.Open id obj := by
  obtain ⟨hdep, d, hd, hopen⟩ := h
  rw [set, List.getElem?_modify_ne _ _ hne.symm] at hd
  exact ⟨hdep, d, hd, hopen⟩

/-- Closing an object leaves it closed. -/
theorem Open.ne_of_set {o : ℕ} {f : DeploymentStatus → DeploymentStatus}
    (h : (s.set o f).Open id obj) (hf : ∀ d, ¬(f d).status.Open) : obj ≠ o := by
  rintro rfl
  obtain ⟨-, d, hd, hopen⟩ := h
  rw [set, List.getElem?_modify_eq] at hd
  obtain ⟨d', -, rfl⟩ := Option.map_eq_some_iff.mp hd
  exact hf d' hopen

theorem open_store {id' : String} {status : BuildStatus} (hs : s.Deployed)
    (h : (s.store id' status).Open id obj) : id = id' ∧ obj = s.objects.length ∨ s.Open id obj := by
  obtain ⟨hdep, d, hd, hopen⟩ := h
  by_cases hid : id = id'
  · subst hid
    obtain rfl : s.objects.length = obj := by simpa [store] using hdep
    exact Or.inl ⟨rfl, rfl⟩
  · rw [deployments_store s hid] at hdep
    -- the map leads to objects that exist
    obtain ⟨d', hd', -⟩ := Option.map_eq_some_iff.mp (hs id obj hdep)
    rw [store, List.getElem?_append_left (List.getElem?_eq_some_iff.mp hd').1] at hd
    exact Or.inr ⟨hdep, d, hd, hopen⟩

theorem open_command {req : BuildAndDeployRequest} {o : ℕ} {stage : Stage}
    {output : Except String String} (h : (s.command req o stage output).Open id obj) :
    s.Open id obj := by
  obtain ⟨hdep, d, hd, hopen⟩ := h
  cases stage with
  | image =>
    cases output with
    | error what => exact ⟨hdep, d, hd, hopen⟩
    | ok out =>
      rw [command, set, List.getElem?_modify] at hd
      obtain ⟨d', hd', rfl⟩ := Option.map_eq_some_iff.mp hd
      refine ⟨hdep, d', hd', ?_⟩
      split_ifs at hopen <;> exact hopen
  | _ => cases output <;> exact ⟨hdep, d, hd, hopen⟩

theorem queued_command (req : BuildAndDeployRequest) (o : ℕ) (stage : Stage)
    (output : Except String String) :
    (s.command req o stage output).Queued id ↔ s.Queued id := by
  cases stage <;> cases output <;> rfl

end Shared

theorem covers_buildAndDeploy (cfg : Config) (req : BuildAndDeployRequest) (obj : ℕ) (id : String) :
    (buildAndDeploy cfg req obj).Covers id obj := by
  unfold buildAndDeploy
  split_ifs <;> rfl

theorem covers_afterCommand (req : BuildAndDeployRequest) (obj : ℕ) (stage : Stage)
    (output : Except String String) (id : String) :
    (afterCommand req obj stage output).Covers id obj := by
  cases stage <;> cases output <;> rfl

theorem covers_afterCall (req : BuildAndDeployRequest) (obj : ℕ) (call : K8sCall) (env : Env)
    (id : String) : (afterCall req obj call env.created).Covers id obj ∨
      obj ∈ Pc.abandons env (.k8s req obj call) := by
  rw [Pc.abandons]
  cases env.created with
  | error what => exact Or.inr (List.mem_singleton_self obj)
  | ok created =>
    left
    cases call <;> cases created <;> rfl

/-- **One step.** What is open afterwards is in the queue, in the hands of the thread or abandoned,
or it was open before, and in other hands. -/
theorem advance_covered {cfg : Config} {s s' : Shared} {env : Env} {pc pc' : Pc} (hs : s.Deployed)
    (h : advance cfg s env pc = some (s', pc')) {id : String} {obj : ℕ} (hopen : s'.Open id obj) :
    (s'.Queued id ∨ pc'.Covers id obj ∨ obj ∈ pc.abandons env) ∨
      s.Open id obj ∧ ¬s.Queued id ∧ ¬pc.Covers id obj := by
  have hkept : s.Open id obj → (s.Queued id → s'.Queued id) → ¬pc.Covers id obj →
      (s'.Queued id ∨ pc'.Covers id obj ∨ obj ∈ pc.abandons env) ∨
        s.Open id obj ∧ ¬s.Queued id ∧ ¬pc.Covers id obj := by
    intro hold hqueue hpc
    by_cases hq : s.Queued id
    · exact Or.inl (Or.inl (hqueue hq))
    · exact Or.inr ⟨hold, hq, hpc⟩
  cases pc with
  | enqueue req =>
    obtain ⟨rfl, rfl⟩ := Prod.mk.inj (Option.some_inj.mp h)
    rcases Shared.open_store hs hopen with ⟨rfl, -⟩ | hold
    · exact Or.inl (Or.inr (Or.inl rfl))
    · exact hkept hold (fun hq ↦ hq) not_false
  | enqueuePush req =>
    obtain ⟨rfl, rfl⟩ := Prod.mk.inj (Option.some_inj.mp h)
    by_cases hid : req.submissionId = id
    · exact Or.inl (Or.inl ⟨req, List.mem_append_right _ (List.mem_singleton_self req), hid⟩)
    · refine hkept hopen ?_ hid
      rintro ⟨req', hreq', hid'⟩
      exact ⟨req', List.mem_append_left _ hreq', hid'⟩
  | idle =>
    rw [advance] at h
    split at h
    · simp at h
    · rename_i req queue hqueue
      obtain ⟨rfl, rfl⟩ := Prod.mk.inj (Option.some_inj.mp h)
      by_cases hid : req.submissionId = id
      · exact Or.inl (Or.inr (Or.inl hid))
      · refine hkept hopen ?_ not_false
        rintro ⟨req', hreq', hid'⟩
        rw [hqueue] at hreq'
        rcases List.mem_cons.mp hreq' with rfl | hreq'
        · exact absurd hid' hid
        · exact ⟨req', hreq', hid'⟩
  | build req =>
    rw [advance] at h
    split at h
    · rename_i o ho
      obtain ⟨rfl, rfl⟩ := Prod.mk.inj (Option.some_inj.mp h)
      by_cases heq : obj = o
      · subst heq
        exact Or.inl (Or.inr (Or.inl (covers_buildAndDeploy cfg req obj id)))
      · have hold := hopen.of_set heq
        refine hkept hold (fun hq ↦ hq) ?_
        -- the thread would build the object of the map, which is another one
        rintro rfl
        exact heq (Option.some_inj.mp (hold.1.symm.trans ho))
    · rename_i hnone
      obtain ⟨rfl, rfl⟩ := Prod.mk.inj (Option.some_inj.mp h)
      rcases Shared.open_store hs hopen with ⟨rfl, rfl⟩ | hold
      · exact Or.inl (Or.inr (Or.inl (covers_buildAndDeploy cfg req _ _)))
      · refine hkept hold (fun hq ↦ hq) ?_
        rintro rfl
        have hsome := hold.1
        rw [hnone] at hsome
        simp at hsome
  | exec req o stage =>
    obtain ⟨rfl, rfl⟩ := Prod.mk.inj (Option.some_inj.mp h)
    by_cases heq : o = obj
    · subst heq
      exact Or.inl (Or.inr (Or.inl (covers_afterCommand req o stage env.output id)))
    · exact hkept (Shared.open_command hopen) (Shared.queued_command req o stage env.output).mpr heq
  | k8s req o call =>
    have hcovers := covers_afterCall req o call env id
    rw [advance] at h
    split_ifs at h
    all_goals
      obtain ⟨rfl, rfl⟩ := Prod.mk.inj (Option.some_inj.mp h)
      by_cases heq : o = obj
      · exact Or.inl (Or.inr (heq ▸ hcovers))
      · exact hkept hopen (fun hq ↦ hq) heq
  | finish req o endpointUrl namespaceName =>
    obtain ⟨rfl, rfl⟩ := Prod.mk.inj (Option.some_inj.mp h)
    have hne := hopen.ne_of_set fun d ↦ not_false
    exact hkept (hopen.of_set hne) (fun hq ↦ hq) hne.symm
  | fail o errMsg =>
    obtain ⟨rfl, rfl⟩ := Prod.mk.inj (Option.some_inj.mp h)
    have hne := hopen.ne_of_set fun d ↦ not_false
    exact hkept (hopen.of_set hne) (fun hq ↦ hq) hne.symm
  | teardown submissionId =>
    rw [advance] at h
    split at h
    · obtain ⟨rfl, rfl⟩ := Prod.mk.inj (Option.some_inj.mp h)
      exact hkept hopen (fun hq ↦ hq) not_false
    · obtain ⟨rfl, rfl⟩ := Prod.mk.inj (Option.some_inj.mp h)
      exact hkept hopen (fun hq ↦ hq) not_false
  | teardownExec submissionId o =>
    obtain ⟨rfl, rfl⟩ := Prod.mk.inj (Option.some_inj.mp h)
    exact hkept hopen (fun hq ↦ hq) not_false
  | teardownSet submissionId o =>
    obtain ⟨rfl, rfl⟩ := Prod.mk.inj (Option.some_inj.mp h)
    have hne := hopen.ne_of_set fun d ↦ not_false
    exact hkept (hopen.of_set hne) (fun hq ↦ hq) not_false
  | done result => simp [advance] at h

/-- What the steps of a thread emit, for the thread that takes the step. -/
theorem Service.abandons_run {s : Service} {l r : List Pc} {pc : Pc} {i : ℕ}
    (hthreads : s.threads = l ++ pc :: r) (hi : l.length = i) (env : Env) :
    s.abandons (.run i env) = pc.abandons env := by
  rw [abandons, hthreads, ← hi]
  simp

theorem Service.Covered.next {cfg : Config} {abandoned : List ℕ} {s t : Service} {e : ServiceEvent}
    (hinv : s.Inv) (h : s.Covered abandoned) (hstep : s.step cfg e = some t) :
    t.Covered (abandoned ++ s.abandons e) := by
  cases e with
  | start call =>
    obtain rfl := Option.some_inj.mp hstep
    intro id obj hopen
    rcases h id obj hopen with hq | ⟨pc, hpc, hcovers⟩ | hmem
    · exact Or.inl hq
    · exact Or.inr (Or.inl ⟨pc, List.mem_append_left _ hpc, hcovers⟩)
    · exact Or.inr (Or.inr (List.mem_append_left _ hmem))
  | run i env =>
    obtain ⟨l, pc, r, m, pc', hthreads, hi, hadvance, rfl⟩ := Pool.next_run hstep
    rw [Service.abandons_run hthreads hi]
    intro id obj hopen
    rcases advance_covered hinv.deployed hadvance hopen with
      (hq | hpc' | hmem) | ⟨hold, hnq, hnpc⟩
    · exact Or.inl hq
    · exact Or.inr (Or.inl ⟨pc', by simp, hpc'⟩)
    · exact Or.inr (Or.inr (List.mem_append_right _ hmem))
    · rcases h id obj hold with hq | ⟨q, hmem, hcovers⟩ | hmem
      · exact absurd hq hnq
      · rw [hthreads] at hmem
        rcases List.mem_append.mp hmem with hmem | hmem
        · exact Or.inr (Or.inl ⟨q, List.mem_append_left _ hmem, hcovers⟩)
        · rcases List.mem_cons.mp hmem with rfl | hmem
          · exact absurd hcovers hnpc
          · exact Or.inr (Or.inl
              ⟨q, List.mem_append_right _ (List.mem_cons_of_mem _ hmem), hcovers⟩)
      · exact Or.inr (Or.inr (List.mem_append_left _ hmem))

/-! ## Builds that have begun -/

/-- The status of the object has been set by a build. -/
def Shared.Begun (s : Shared) (obj : ℕ) : Prop :=
  ∃ d, s.objects[obj]? = some d ∧ d.status ≠ .pendingBuild

/-- Calls of the Kubernetes client are made in Kubernetes mode, for builds that have begun. -/
def Pc.Begun (cfg : Config) (s : Shared) : Pc → Prop
  | .k8s _ obj _ => cfg.mode = "k8s" ∧ s.Begun obj
  | _ => True

structure Service.Begun (cfg : Config) (abandoned : List ℕ) (s : Service) : Prop where
  threads : ∀ pc ∈ s.threads, pc.Begun cfg s.shared
  abandoned : ∀ obj ∈ abandoned, cfg.mode = "k8s" ∧ s.shared.Begun obj

namespace Shared.Begun

variable {s : Shared} {obj : ℕ}

theorem set (h : s.Begun obj) (o : ℕ) {f : DeploymentStatus → DeploymentStatus}
    (hf : ∀ d, d.status ≠ .pendingBuild → (f d).status ≠ .pendingBuild) :
    (s.set o f).Begun obj := by
  obtain ⟨d, hd, hstatus⟩ := h
  rw [Begun, Shared.set, List.getElem?_modify, hd]
  refine ⟨_, rfl, ?_⟩
  split_ifs
  · exact hf d hstatus
  · exact hstatus

theorem store (h : s.Begun obj) (id : String) (status : BuildStatus) :
    (s.store id status).Begun obj := by
  obtain ⟨d, hd, hstatus⟩ := h
  refine ⟨d, ?_, hstatus⟩
  rw [Shared.store, List.getElem?_append_left (List.getElem?_eq_some_iff.mp hd).1, hd]

theorem command (h : s.Begun obj) (req : BuildAndDeployRequest) (o : ℕ) (stage : Stage)
    (output : Except String String) : (s.command req o stage output).Begun obj := by
  cases stage <;> cases output <;>
    first
    | exact h
    | exact h.set o fun _ hd ↦ hd

end Shared.Begun

theorem begun_buildAndDeploy {cfg : Config} {s : Shared} {obj : ℕ} (h : s.Begun obj)
    (req : BuildAndDeployRequest) : (buildAndDeploy cfg req obj).Begun cfg s := by
  unfold buildAndDeploy
  split_ifs with hid hlocal hlanguage hk8s
  · trivial
  · trivial
  · exact ⟨hk8s, h⟩
  · trivial
  · trivial

theorem begun_afterCommand (cfg : Config) (s : Shared) (req : BuildAndDeployRequest) (obj : ℕ)
    (stage : Stage) (output : Except String String) :
    (afterCommand req obj stage output).Begun cfg s := by
  cases stage <;> cases output <;> trivial

theorem begun_afterCall {cfg : Config} {s : Shared} (req : BuildAndDeployRequest) {obj : ℕ}
    (call : K8sCall) (h : Pc.Begun cfg s (.k8s req obj call)) (created : Except String Bool) :
    (afterCall req obj call created).Begun cfg s := by
  cases call <;> rcases created with _ | _ | _ <;> first | exact h | trivial

/-- **One step** never takes a build back to before its beginning. -/
theorem advance_begun {cfg : Config} {s s' : Shared} {env : Env} {pc pc' : Pc} (hs : s.Deployed)
    (hpc : pc.Begun cfg s) (h : advance cfg s env pc = some (s', pc')) :
    (∀ obj, s.Begun obj → s'.Begun obj) ∧ pc'.Begun cfg s' := by
  cases pc with
  | enqueue req =>
    obtain ⟨rfl, rfl⟩ := Prod.mk.inj (Option.some_inj.mp h)
    exact ⟨fun obj hobj ↦ hobj.store _ _, trivial⟩
  | enqueuePush req =>
    obtain ⟨rfl, rfl⟩ := Prod.mk.inj (Option.some_inj.mp h)
    exact ⟨fun obj hobj ↦ hobj, trivial⟩
  | idle =>
    rw [advance] at h
    split at h
    · simp at h
    · obtain ⟨rfl, rfl⟩ := Prod.mk.inj (Option.some_inj.mp h)
      exact ⟨fun obj hobj ↦ hobj, trivial⟩
  | build req =>
    rw [advance] at h
    split at h
    · rename_i o ho
      obtain ⟨rfl, rfl⟩ := Prod.mk.inj (Option.some_inj.mp h)
      refine ⟨fun obj hobj ↦ hobj.set o fun _ _ ↦ by simp, begun_buildAndDeploy ?_ req⟩
      -- the map leads to an object that exists
      obtain ⟨d, hd, -⟩ := Option.map_eq_some_iff.mp (hs req.submissionId o ho)
      refine ⟨{ d with status := .building }, ?_, by simp⟩
      rw [Shared.set, List.getElem?_modify_eq, hd]
      rfl
    · obtain ⟨rfl, rfl⟩ := Prod.mk.inj (Option.some_inj.mp h)
      refine ⟨fun obj hobj ↦ hobj.store _ _, begun_buildAndDeploy ?_ req⟩
      refine ⟨.new req.submissionId .building, ?_, by simp [DeploymentStatus.new]⟩
      rw [Shared.store, List.getElem?_append_right (Nat.le_refl _), Nat.sub_self]
      rfl
  | exec req o stage =>
    obtain ⟨rfl, rfl⟩ := Prod.mk.inj (Option.some_inj.mp h)
    exact ⟨fun obj hobj ↦ hobj.command req o stage _, begun_afterCommand cfg _ req o stage _⟩
  | k8s req o call =>
    rw [advance] at h
    split_ifs at h
    all_goals
      obtain ⟨rfl, rfl⟩ := Prod.mk.inj (Option.some_inj.mp h)
      exact ⟨fun obj hobj ↦ hobj, begun_afterCall req call hpc env.created⟩
  | finish req o endpointUrl namespaceName =>
    obtain ⟨rfl, rfl⟩ := Prod.mk.inj (Option.some_inj.mp h)
    exact ⟨fun obj hobj ↦ hobj.set o fun _ _ ↦ by simp, trivial⟩
  | fail o errMsg =>
    obtain ⟨rfl, rfl⟩ := Prod.mk.inj (Option.some_inj.mp h)
    exact ⟨fun obj hobj ↦ hobj.set o fun _ _ ↦ by simp, trivial⟩
  | teardown submissionId =>
    rw [advance] at h
    split at h
    · obtain ⟨rfl, rfl⟩ := Prod.mk.inj (Option.some_inj.mp h)
      exact ⟨fun obj hobj ↦ hobj, trivial⟩
    · obtain ⟨rfl, rfl⟩ := Prod.mk.inj (Option.some_inj.mp h)
      refine ⟨fun obj hobj ↦ hobj, ?_⟩
      split_ifs <;> trivial
  | teardownExec submissionId o =>
    obtain ⟨rfl, rfl⟩ := Prod.mk.inj (Option.some_inj.mp h)
    exact ⟨fun obj hobj ↦ hobj, trivial⟩
  | teardownSet submissionId o =>
    obtain ⟨rfl, rfl⟩ := Prod.mk.inj (Option.some_inj.mp h)
    exact ⟨fun obj hobj ↦ hobj.set o fun _ _ ↦ by simp, trivial⟩
  | done result => simp [advance] at h

/-- What a thread abandons has begun. -/
theorem begun_of_mem_abandons {cfg : Config} {s : Shared} {env : Env} {pc : Pc}
    (h : pc.Begun cfg s) : ∀ obj ∈ pc.abandons env, cfg.mode = "k8s" ∧ s.Begun obj := by
  intro obj hobj
  cases pc with
  | k8s req o call =>
    rw [Pc.abandons] at hobj
    split at hobj
    · rw [List.mem_singleton.mp hobj]
      exact h
    · exact absurd hobj List.not_mem_nil
  | _ => exact absurd hobj List.not_mem_nil

theorem Service.Begun.next {cfg : Config} {abandoned : List ℕ} {s t : Service} {e : ServiceEvent}
    (hinv : s.Inv) (h : s.Begun cfg abandoned) (hstep : s.step cfg e = some t) :
    t.Begun cfg (abandoned ++ s.abandons e) := by
  cases e with
  | start call =>
    obtain rfl := Option.some_inj.mp hstep
    rw [Service.abandons, List.append_nil]
    exact ⟨Pool.forall_start h.threads (by cases call <;> trivial), h.abandoned⟩
  | run i env =>
    obtain ⟨l, pc, r, m, pc', hthreads, hi, hadvance, rfl⟩ := Pool.next_run hstep
    rw [Service.abandons_run hthreads hi]
    have hall := h.threads
    rw [hthreads] at hall
    obtain ⟨hkeep, hpc'⟩ := advance_begun hinv.deployed (hall pc (by simp)) hadvance
    refine ⟨Pool.forall_run hall (fun q hq ↦ ?_) hpc', fun obj hobj ↦ ?_⟩
    · cases q with
      | k8s req o call => exact ⟨hq.1, hkeep o hq.2⟩
      | _ => trivial
    · rcases List.mem_append.mp hobj with hobj | hobj
      · exact ⟨(h.abandoned obj hobj).1, hkeep obj (h.abandoned obj hobj).2⟩
      · obtain ⟨hmode, hbegun⟩ := begun_of_mem_abandons (hall pc (by simp)) obj hobj
        exact ⟨hmode, hkeep obj hbegun⟩

/-! ## The queue -/

/-- What happens to the queue. -/
inductive QueueNote where
  | pushed (req : BuildAndDeployRequest)
  | popped (req : BuildAndDeployRequest)
  deriving DecidableEq

def QueueNote.pushedRequest : QueueNote → Option BuildAndDeployRequest
  | .pushed req => some req
  | .popped _ => none

def QueueNote.poppedRequest : QueueNote → Option BuildAndDeployRequest
  | .pushed _ => none
  | .popped req => some req

def Shared.queueNotes (s : Shared) : Pc → List QueueNote
  | .enqueuePush req => [.pushed req]
  | .idle => (s.queue.head?.map QueueNote.popped).toList
  | _ => []

def Service.queueNotes (s : Service) : ServiceEvent → List QueueNote
  | .start _ => []
  | .run i _ => (s.threads[i]?).elim [] s.shared.queueNotes

/-- The requests that were queued are those that were taken, in that order, and those that wait. -/
def QueueLaw (log : List QueueNote) (s : Service) : Prop :=
  log.filterMap QueueNote.pushedRequest
    = log.filterMap QueueNote.poppedRequest ++ s.shared.queue

theorem advance_queue {cfg : Config} {s s' : Shared} {env : Env} {pc pc' : Pc}
    (h : advance cfg s env pc = some (s', pc')) :
    s.queue ++ (s.queueNotes pc).filterMap QueueNote.pushedRequest
      = (s.queueNotes pc).filterMap QueueNote.poppedRequest ++ s'.queue := by
  have hsame : s.queueNotes pc = [] → s'.queue = s.queue →
      s.queue ++ (s.queueNotes pc).filterMap QueueNote.pushedRequest
        = (s.queueNotes pc).filterMap QueueNote.poppedRequest ++ s'.queue := by
    intro hnone hqueue
    rw [hnone, hqueue, List.filterMap_nil, List.filterMap_nil, List.append_nil, List.nil_append]
  cases pc with
  | enqueuePush req =>
    obtain ⟨rfl, -⟩ := Prod.mk.inj (Option.some_inj.mp h)
    rfl
  | idle =>
    rw [advance] at h
    split at h
    · simp at h
    · rename_i req queue hqueue
      obtain ⟨rfl, -⟩ := Prod.mk.inj (Option.some_inj.mp h)
      rw [Shared.queueNotes, hqueue]
      exact List.append_nil _
  | enqueue req | finish req o url ns | fail o what | teardownExec id o | teardownSet id o =>
    obtain ⟨rfl, -⟩ := Prod.mk.inj (Option.some_inj.mp h)
    exact hsame rfl rfl
  | build req | teardown id =>
    rw [advance] at h
    split at h
    all_goals
      obtain ⟨rfl, -⟩ := Prod.mk.inj (Option.some_inj.mp h)
      exact hsame rfl rfl
  | exec req o stage =>
    obtain ⟨rfl, -⟩ := Prod.mk.inj (Option.some_inj.mp h)
    refine hsame rfl ?_
    cases stage <;> cases env.output <;> rfl
  | k8s req o call =>
    obtain ⟨rfl, -⟩ := Prod.mk.inj (Option.some_inj.mp h)
    refine hsame rfl ?_
    split_ifs <;> rfl
  | done result => simp [advance] at h

theorem QueueLaw.next {cfg : Config} {log : List QueueNote} {s t : Service} {e : ServiceEvent}
    (h : QueueLaw log s) (hstep : s.step cfg e = some t) : QueueLaw (log ++ s.queueNotes e) t := by
  cases e with
  | start call =>
    obtain rfl := Option.some_inj.mp hstep
    rw [Service.queueNotes, List.append_nil]
    exact h
  | run i env =>
    obtain ⟨l, pc, r, m, pc', hthreads, hi, hadvance, rfl⟩ := Pool.next_run hstep
    have hnotes : s.queueNotes (.run i env) = s.shared.queueNotes pc := by
      rw [Service.queueNotes, hthreads, ← hi]
      simp
    rw [hnotes, QueueLaw, List.filterMap_append, h, List.append_assoc, advance_queue hadvance,
      ← List.append_assoc, List.filterMap_append]

/-! ## The service comes to rest -/

/-- How many more steps a command can lead to. -/
def Stage.remaining : Stage → ℕ
  | .mkdir => 10
  | .download => 9
  | .extract => 8
  | .dockerfile => 7
  | .image => 6
  | .network => 5
  | .remove => 4
  | .run => 3
  | .port => 2

def K8sCall.remaining : K8sCall → ℕ
  | .createNamespace => 6
  | .createResourceQuota => 5
  | .createNetworkPolicy => 4
  | .createPod => 3
  | .createService => 2

/-- A bound for what a thread still has to do, and others for it: a request in the queue counts
`12`. -/
def Pc.remaining : Pc → ℕ
  | .enqueue _ => 14
  | .enqueuePush _ => 13
  | .build _ => 11
  | .exec _ _ stage => stage.remaining
  | .k8s _ _ call => call.remaining
  | .finish _ _ _ _ => 1
  | .fail _ _ => 1
  | .teardown _ => 3
  | .teardownExec _ _ => 2
  | .teardownSet _ _ => 1
  | .idle => 0
  | .done _ => 0

def Service.remaining (s : Service) : ℕ :=
  12 * s.shared.queue.length + (s.threads.map Pc.remaining).sum

theorem remaining_buildAndDeploy (cfg : Config) (req : BuildAndDeployRequest) (obj : ℕ) :
    (buildAndDeploy cfg req obj).remaining < Pc.remaining (.build req) := by
  unfold buildAndDeploy
  split_ifs <;> simp [Pc.remaining, Stage.remaining, K8sCall.remaining]

theorem remaining_afterCommand (req : BuildAndDeployRequest) (obj : ℕ) (stage : Stage)
    (output : Except String String) :
    (afterCommand req obj stage output).remaining < stage.remaining := by
  cases stage with
  | mkdir =>
    rw [afterCommand]
    split_ifs <;> simp [Pc.remaining, Stage.remaining]
  | _ => cases output <;> simp [afterCommand, Pc.remaining, Stage.remaining]

theorem remaining_afterCall (req : BuildAndDeployRequest) (obj : ℕ) (call : K8sCall)
    (created : Except String Bool) :
    (afterCall req obj call created).remaining < call.remaining := by
  cases call <;> rcases created with _ | _ | _ <;>
    simp [afterCall, Pc.remaining, K8sCall.remaining]

/-- Every step brings the service closer to rest. -/
theorem advance_remaining {cfg : Config} {s s' : Shared} {env : Env} {pc pc' : Pc}
    (h : advance cfg s env pc = some (s', pc')) :
    12 * s'.queue.length + pc'.remaining < 12 * s.queue.length + pc.remaining := by
  cases pc with
  | enqueuePush req =>
    obtain ⟨rfl, rfl⟩ := Prod.mk.inj (Option.some_inj.mp h)
    simp only [List.length_append, List.length_singleton, Pc.remaining]
    omega
  | idle =>
    rw [advance] at h
    split at h
    · simp at h
    · rename_i req queue hqueue
      obtain ⟨rfl, rfl⟩ := Prod.mk.inj (Option.some_inj.mp h)
      rw [hqueue, List.length_cons]
      simp only [Pc.remaining]
      omega
  | enqueue req | finish req o url ns | fail o what | teardownExec id o | teardownSet id o =>
    obtain ⟨rfl, rfl⟩ := Prod.mk.inj (Option.some_inj.mp h)
    exact Nat.add_lt_add_left (by simp [Pc.remaining]) _
  | build req =>
    rw [advance] at h
    split at h
    all_goals
      obtain ⟨rfl, rfl⟩ := Prod.mk.inj (Option.some_inj.mp h)
      exact Nat.add_lt_add_left (remaining_buildAndDeploy cfg req _) _
  | teardown id =>
    rw [advance] at h
    split at h
    · obtain ⟨rfl, rfl⟩ := Prod.mk.inj (Option.some_inj.mp h)
      exact Nat.add_lt_add_left (by simp [Pc.remaining]) _
    · obtain ⟨rfl, rfl⟩ := Prod.mk.inj (Option.some_inj.mp h)
      refine Nat.add_lt_add_left ?_ _
      split_ifs <;> simp [Pc.remaining]
  | exec req o stage =>
    obtain ⟨rfl, rfl⟩ := Prod.mk.inj (Option.some_inj.mp h)
    have hqueue : (s.command req o stage env.output).queue = s.queue := by
      cases stage <;> cases env.output <;> rfl
    rw [hqueue]
    exact Nat.add_lt_add_left (remaining_afterCommand req o stage env.output) _
  | k8s req o call =>
    rw [advance] at h
    split_ifs at h
    all_goals
      obtain ⟨rfl, rfl⟩ := Prod.mk.inj (Option.some_inj.mp h)
      exact Nat.add_lt_add_left (remaining_afterCall req o call env.created) _
  | done result => simp [advance] at h

theorem Service.remaining_lt {cfg : Config} {s t : Service} {i : ℕ} {env : Env}
    (h : s.step cfg (.run i env) = some t) : t.remaining < s.remaining := by
  obtain ⟨l, pc, r, m, pc', hthreads, -, hadvance, rfl⟩ := Pool.next_run h
  have hlower := advance_remaining hadvance
  rw [remaining, remaining, hthreads]
  simp only [List.map_append, List.map_cons, List.sum_append, List.sum_cons]
  omega

/-- A thread that can take no step has nothing to do. -/
theorem advance_eq_none {cfg : Config} {s : Shared} {env : Env} {pc : Pc}
    (h : advance cfg s env pc = none) :
    (pc = .idle ∧ s.queue = []) ∨ ∃ result, pc = .done result := by
  cases pc with
  | idle =>
    rw [advance] at h
    split at h
    · rename_i hqueue
      exact Or.inl ⟨rfl, hqueue⟩
    · simp at h
  | build req | teardown id =>
    rw [advance] at h
    split at h <;> simp at h
  | done result => exact Or.inr ⟨result, rfl⟩
  | _ => simp [advance] at h

/-- **At rest**, the queue is empty and every deployment is closed or abandoned. -/
theorem Service.closed_of_rest {cfg : Config} {abandoned : List ℕ} {s : Service} (hinv : s.Inv)
    (hcovered : s.Covered abandoned) (hrest : ∀ i env, s.step cfg (.run i env) = none) :
    s.shared.queue = [] ∧ ∀ id obj, s.shared.Open id obj → obj ∈ abandoned := by
  have hthread : ∀ (i : ℕ) (pc : Pc), s.threads[i]? = some pc →
      (pc = .idle ∧ s.shared.queue = []) ∨ ∃ result, pc = .done result := by
    intro i pc hpc
    have hnone := hrest i .lucky
    rw [step, Pool.next, hpc] at hnone
    exact advance_eq_none (Option.map_eq_none_iff.mp hnone)
  have hqueue : s.shared.queue = [] := by
    obtain ⟨w, hw, hworker⟩ := hinv.worker
    rcases hthread 0 w hw with ⟨-, hqueue⟩ | ⟨result, rfl⟩
    · exact hqueue
    · exact hworker.elim
  refine ⟨hqueue, fun id obj hopen ↦ ?_⟩
  rcases hcovered id obj hopen with ⟨req, hreq, -⟩ | ⟨pc, hpc, hcovers⟩ | hmem
  · rw [hqueue] at hreq
    exact absurd hreq List.not_mem_nil
  · obtain ⟨i, hi⟩ := List.mem_iff_getElem?.mp hpc
    rcases hthread i pc hi with ⟨rfl, -⟩ | ⟨result, rfl⟩
    · exact hcovers.elim
    · exact hcovers.elim
  · exact hmem

/-- What a run keeps of the deployments. -/
structure Service.Settled (cfg : Config) (abandoned : List ℕ) (s : Service) : Prop where
  inv : s.Inv
  covered : s.Covered abandoned
  begun : s.Begun cfg abandoned

theorem Service.settled_run {cfg : Config} {es : List ServiceEvent} {s : Service}
    (h : exec (Service.step cfg) Service.initial es = some s) :
    s.Settled cfg (emitted (Service.step cfg) Service.abandons Service.initial es) := by
  refine exec_emitted (l := []) (P := Service.Settled cfg) (fun l s e t hs hstep ↦ ?_) ?_ h
  · exact ⟨hs.inv.next hstep, hs.covered.next hs.inv hstep, hs.begun.next hs.inv hstep⟩
  · refine ⟨Service.inv_initial, ?_, fun pc hpc ↦ ?_, nofun⟩
    · rintro id obj ⟨hdep, -⟩
      simp [Service.initial] at hdep
    · obtain rfl : pc = .idle := by simpa [Service.initial] using hpc
      trivial

/-- **No build is lost.** Whatever calls were made and however the threads interleaved: the requests
that were queued are, in their order, those a worker has taken and those that still wait; if no
more calls come, the service takes at most `remaining` more steps; and when it takes no more, every
deployment it knows of is ready, failed or torn down, or it is in Kubernetes mode, still building,
and a call of the Kubernetes client has thrown while it was built. -/
theorem builds_settle {cfg : Config} {es : List ServiceEvent} {s : Service}
    (h : exec (Service.step cfg) Service.initial es = some s) :
    QueueLaw (emitted (Service.step cfg) Service.queueNotes Service.initial es) s ∧
    ∀ (steps : List (ℕ × Env)) (t : Service),
      let es' := steps.map fun step ↦ (.run step.1 step.2 : ServiceEvent)
      let abandoned := emitted (Service.step cfg) Service.abandons Service.initial (es ++ es')
      exec (Service.step cfg) s es' = some t →
        steps.length ≤ s.remaining ∧
        ((∀ i env, t.step cfg (.run i env) = none) → t.shared.queue = [] ∧
          ∀ id obj d, t.shared.deployments id = some obj → t.shared.objects[obj]? = some d →
            d.status = .ready ∨ d.status = .failed ∨ d.status = .tornDown ∨
              d.status = .building ∧ cfg.mode = "k8s" ∧ obj ∈ abandoned) := by
  refine ⟨exec_emitted (l := []) (P := QueueLaw) (fun _ _ _ _ hl hstep ↦ hl.next hstep) rfl h,
    fun steps t ht ↦ ⟨?_, fun hrest ↦ ?_⟩⟩
  · have hbound := exec_length_le (fun e : ServiceEvent ↦ ∃ i env, e = .run i env)
      Service.remaining (fun u e v he hv ↦ by
        obtain ⟨i, env, rfl⟩ := he
        exact Service.remaining_lt hv)
      (fun e he ↦ by
        obtain ⟨step, -, rfl⟩ := List.mem_map.mp he
        exact ⟨step.1, step.2, rfl⟩) ht
    rw [List.length_map] at hbound
    omega
  · have hrun : exec (Service.step cfg) Service.initial
        (es ++ steps.map fun step ↦ .run step.1 step.2) = some t := by
      rw [exec_append, h, Option.bind_some, ht]
    have hlast := Service.settled_run hrun
    obtain ⟨hqueue, hclosed⟩ := Service.closed_of_rest hlast.inv hlast.covered hrest
    refine ⟨hqueue, fun id obj d hdep hd ↦ ?_⟩
    have hopen : d.status.Open → d.status ≠ .pendingBuild ∧ cfg.mode = "k8s" ∧
        obj ∈ emitted (Service.step cfg) Service.abandons Service.initial
          (es ++ steps.map fun step ↦ .run step.1 step.2) := by
      intro hopen
      have hmem := hclosed id obj ⟨hdep, d, hd, hopen⟩
      obtain ⟨hmode, d', hd', hstatus⟩ := hlast.begun.abandoned obj hmem
      obtain rfl := Option.some_inj.mp (hd.symm.trans hd')
      exact ⟨hstatus, hmode, hmem⟩
    cases hstatus : d.status with
    | ready => exact Or.inl rfl
    | failed => exact Or.inr (Or.inl rfl)
    | tornDown => exact Or.inr (Or.inr (Or.inl rfl))
    | pendingBuild =>
      rw [hstatus] at hopen
      exact absurd rfl (hopen trivial).1
    | building =>
      rw [hstatus] at hopen
      exact Or.inr (Or.inr (Or.inr ⟨rfl, (hopen trivial).2⟩))

/-- A request that has been queued, on a service whose Docker works. -/
def queuedBuild : List ServiceEvent :=
  [.start (.enqueueBuild ⟨"s1", "go", "http://minio/s1.tar.gz"⟩), .run 2 .lucky, .run 2 .lucky]

theorem builds_settle_queuedBuild : ∃ s : Service,
    exec (Service.step ⟨"local"⟩) Service.initial queuedBuild = some s ∧
      s.shared.queue.length = 1 ∧ s.remaining = 12 ∧
      QueueLaw (emitted (Service.step ⟨"local"⟩) Service.queueNotes Service.initial queuedBuild) s ∧
      ∀ (steps : List (ℕ × Env)) (t : Service), exec (Service.step ⟨"local"⟩) s
        (steps.map fun step ↦ .run step.1 step.2) = some t → steps.length ≤ 12 := by
  have hrun : ((exec (Service.step ⟨"local"⟩) Service.initial queuedBuild).any fun s ↦
      decide (s.shared.queue.length = 1 ∧ s.remaining = 12)) = true := by decide +kernel
  obtain ⟨s, hs, h⟩ := (Option.any_eq_true _ _).mp hrun
  obtain ⟨hlength, hremaining⟩ := of_decide_eq_true h
  obtain ⟨hlaw, hsteps⟩ := builds_settle hs
  exact ⟨s, hs, hlength, hremaining, hlaw, fun steps t ht ↦ hremaining ▸ (hsteps steps t ht).1⟩

end BenchmarkPlatform.Sandbox
