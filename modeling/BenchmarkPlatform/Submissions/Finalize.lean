import BenchmarkPlatform.Sandbox.Service
import BenchmarkPlatform.Submissions.Testing

/-!
# A completed submission and its finalization

The row of a submission is set to `complete` first, and the request to finalize the run is sent
afterwards; its answer is not looked at. Both the status poll and the finalizer pass over a row that
is `complete`, so a request that fails is not sent again.

A handler owes the request when it holds the report that the run has completed, or has acted on it;
in a wider reading (`asked`), also when it has asked the orchestrator about the run or is about to.
A completed row is settled as long as the run has been finalized, or a request is on its way, or a
handler owes one. Each loss of a request, or of a handler that owes one, is counted against what
else there is.
-/

namespace BenchmarkPlatform.Submissions

open Lib

/-! ## The system -/

/-- The handlers of a submission, and what has become of the requests they sent. -/
structure Finalization where
  service : State
  /-- The finalize requests that have been sent and have neither been served nor failed. -/
  inFlight : ℕ
  /-- The number of times the scoring engine has executed `FinalizeRun`. -/
  executed : ℕ

inductive FinalizationEvent where
  | service (e : Event)
  | execute
  /-- The call fails: no connection, or a reply other than 200. -/
  | fail

/-- The statuses the sandbox manager knows; a status that was not read is empty. -/
def SandboxReply.FromSandbox (reply : SandboxReply) : Prop :=
  reply.status = "" ∨ ∃ status : Sandbox.BuildStatus, reply.status = status.toString

def Event.FromSandbox : Event → Prop
  | .handler (.run _ env) => env.sandbox.FromSandbox
  | _ => True

theorem SandboxReply.fromSandbox_iff (reply : SandboxReply) : reply.FromSandbox ↔
    reply.status ∈ ["", "pending_build", "building", "ready", "failed", "torn_down"] := by
  simp only [SandboxReply.FromSandbox, List.mem_cons, List.not_mem_nil, or_false]
  constructor
  · rintro (h | ⟨status, h⟩)
    · exact .inl h
    · cases status <;> simp [h, Sandbox.BuildStatus.toString]
  · rintro (h | h | h | h | h | h)
    · exact .inl h
    · exact .inr ⟨.pendingBuild, h⟩
    · exact .inr ⟨.building, h⟩
    · exact .inr ⟨.ready, h⟩
    · exact .inr ⟨.failed, h⟩
    · exact .inr ⟨.tornDown, h⟩

instance : DecidablePred SandboxReply.FromSandbox := fun reply ↦
  decidable_of_iff _ reply.fromSandbox_iff.symm

instance : DecidablePred Event.FromSandbox
  | .handler (.run _ env) => inferInstanceAs (Decidable env.sandbox.FromSandbox)
  | .handler (.start _) => isTrue trivial
  | .orchestrator _ => isTrue trivial

/-- The number of finalize requests sent. -/
def Shared.sent (s : Shared) : ℕ := s.finalizeRequests.length

def Finalization.step (cfg : Orchestrator.Config) (sub : Submission) (s : Finalization) :
    FinalizationEvent → Option Finalization
  | .service e =>
    if e.FromSandbox then
      (Submissions.step cfg sub s.service e).map fun t ↦
        { s with service := t, inFlight := s.inFlight + (t.shared.sent - s.service.shared.sent) }
    else none
  | .execute =>
    if 0 < s.inFlight then
      some { s with inFlight := s.inFlight - 1, executed := s.executed + 1 }
    else none
  | .fail => if 0 < s.inFlight then some { s with inFlight := s.inFlight - 1 } else none

/-- A submission as POST submit leaves it. -/
def Finalization.initial : Finalization := ⟨State.initial "pending" "", 0, 0⟩

/-! ## Who owes a request -/

section Law

variable (asked : Bool)

/-- The handler is going to send a finalize request; in the wider reading, it may. -/
def HandlerPc.owes : HandlerPc → Bool
  | .getAskOrchestrator | .getOrchestratorAsked _ => asked
  | .finalizerAsk _ | .finalizerAsked _ _ => asked
  | .getOrchestratorReply _ (some report) => report.status = "completed"
  | .getFinalize => true
  | .finalizerReply _ _ (some report) => report.status = "completed"
  | .finalizerFinalize _ => true
  | _ => false

/-- The step fails a handler that owes a request: the orchestrator does not report the run as
completed, or the database throws. Asking takes no database, nor does the request that the finalizer
sends. -/
def HandlerPc.breaks (sub : Submission) (s : Shared) (env : Env) : HandlerPc → Bool
  | .getAskOrchestrator | .finalizerAsk _ | .finalizerFinalize _ => false
  | .getOrchestratorAsked _ | .finalizerAsked _ _ =>
    asked && !(s.report sub.id env).any fun report ↦ report.status = "completed"
  | pc => pc.owes asked && env.dbError.isSome

/-- **The law.** If the row is `complete`, then the run has been finalized, or a finalize request is
in flight, or a poll or a round of the finalizer is going to send one. -/
def Finalization.Settled (s : Finalization) : Prop :=
  s.service.shared.row.status = "complete" →
    0 < s.executed ∨ 0 < s.inFlight ∨ ∃ pc ∈ s.service.threads, pc.owes asked = true

/-- The requests in flight and the handlers that owe one. -/
def Finalization.promises (s : Finalization) : ℕ :=
  s.inFlight + s.service.threads.countP (HandlerPc.owes asked)

/-- One promise can be missed. -/
def Finalization.Spare (s : Finalization) : Prop :=
  s.service.shared.row.status ≠ "complete" ∨ 0 < s.executed ∨ 2 ≤ s.promises asked

instance : DecidablePred (Finalization.Spare asked) := fun _ ↦
  inferInstanceAs (Decidable (_ ∨ _ ∨ _))

/-- If a request fails, or a step fails a handler that owes one, there is another. -/
def KeepsPromise (sub : Submission) (s : Finalization) : FinalizationEvent → Prop
  | .fail => s.Spare asked
  | .service (.handler (.run i env)) =>
    (∃ pc ∈ s.service.threads[i]?, pc.breaks asked sub s.service.shared env = true) → s.Spare asked
  | _ => True

instance (sub : Submission) (s : Finalization) : DecidablePred (KeepsPromise asked sub s)
  | .fail => inferInstanceAs (Decidable (s.Spare asked))
  | .service (.handler (.run i env)) =>
    inferInstanceAs (Decidable ((∃ pc ∈ s.service.threads[i]?,
      pc.breaks asked sub s.service.shared env = true) → s.Spare asked))
  | .execute => isTrue trivial
  | .service (.handler (.start _)) => isTrue trivial
  | .service (.orchestrator _) => isTrue trivial

theorem Finalization.settled_iff (s : Finalization) :
    s.Settled asked ↔
      s.service.shared.row.status = "complete" → 0 < s.executed ∨ 0 < s.promises asked := by
  rw [Settled, promises, Nat.add_pos_iff_pos_or_pos, List.countP_pos_iff]

end Law

/-! ## The steps of the handlers -/

variable {asked : Bool} {cfg : Orchestrator.Config} {sub : Submission}

/-- The status a handler is about to copy from the sandbox manager is not `complete`. -/
def HandlerPc.Copies (pc : HandlerPc) : Prop :=
  ∀ reply, pc = .getSandboxReply reply → reply.status ≠ "complete"

theorem SandboxReply.FromSandbox.ne_complete {reply : SandboxReply} (h : reply.FromSandbox) :
    reply.status ≠ "complete" := by
  rintro heq
  rw [SandboxReply.fromSandbox_iff, heq] at h
  simp at h

theorem newStatus_eq_complete {status : String} :
    newStatus status = "complete" ↔ status = "completed" := by
  unfold newStatus
  split_ifs <;> simp_all

theorem endStatus_eq_complete {status : String} :
    endStatus status = some "complete" ↔ status = "completed" := by
  unfold endStatus
  split_ifs <;> simp_all

theorem database_cases (env : Env) (s : Shared) (caught : String → Option Response)
    (r : Shared × HandlerPc) :
    (env.dbError.isSome = true ∧ ∃ response, env.database s caught r = (s, .done response)) ∨
      env.dbError = none ∧ env.database s caught r = r := by
  cases h : env.dbError with
  | none => exact .inr ⟨rfl, by rw [Env.database, h]⟩
  | some message => exact .inl ⟨rfl, _, by rw [Env.database, h]⟩

/-- What a step has to do for the finalization: a handler that owes a request goes on owing it or
sends it, and only a handler that owes a request sets the row to `complete`. -/
structure Keeps (asked : Bool) (s : Shared) (pc : HandlerPc) (s' : Shared) (pc' : HandlerPc) :
    Prop where
  complete : s'.row.status = "complete" → s.row.status = "complete" ∨ pc'.owes asked = true
  sent_le : s.sent ≤ s'.sent
  owed : pc.owes asked = true → pc'.owes asked = true ∨ s.sent < s'.sent

theorem Keeps.same {s : Shared} {pc pc' : HandlerPc}
    (h : pc.owes asked = true → pc'.owes asked = true) : Keeps asked s pc s pc' :=
  ⟨.inl, le_rfl, fun howes ↦ .inl (h howes)⟩

/-- It is enough to look at a step that uses the database in case that the database works. -/
theorem Keeps.of_database {s s' : Shared} {env : Env} {pc pc' : HandlerPc}
    {caught : String → Option Response} {r : Shared × HandlerPc}
    (hkeeps : (pc.owes asked && env.dbError.isSome) = false)
    (h : env.database s caught r = (s', pc')) (hr : Keeps asked s pc r.1 r.2) :
    Keeps asked s pc s' pc' := by
  rcases database_cases env s caught r with ⟨hsome, response, hfail⟩ | ⟨-, hok⟩
  · obtain ⟨rfl, rfl⟩ := Prod.mk.inj (hfail.symm.trans h)
    refine Keeps.same fun howes ↦ ?_
    simp [howes, hsome] at hkeeps
  · obtain rfl := hok.symm.trans h
    exact hr

theorem HandlerPc.owes_getOrchestratorReply (asked : Bool) (sentAt : ℕ) (report : Option Report) :
    (getOrchestratorReply sentAt report).owes asked
      = report.any fun report ↦ report.status = "completed" := by
  cases report <;> rfl

theorem HandlerPc.owes_finalizerReply (asked : Bool) (sentAt : ℕ) (teamName : String)
    (report : Option Report) : (finalizerReply sentAt teamName report).owes asked
      = report.any fun report ↦ report.status = "completed" := by
  cases report <;> rfl

/-- A handler that a step fails does nothing. -/
theorem advance_breaks {s s' : Shared} {env : Env} {pc pc' : HandlerPc}
    (hbreaks : pc.breaks asked sub s env = true) (h : advance cfg sub s env pc = some (s', pc')) :
    s' = s ∧ pc.owes asked = true ∧ pc'.owes asked = false := by
  -- nothing is committed when the database throws, and the handler answers with the error
  have hfails : ∀ {caught : String → Option Response} {r : Shared × HandlerPc},
      env.dbError.isSome = true → env.database s caught r = (s', pc') →
        s' = s ∧ pc'.owes asked = false := by
    intro caught r hsome hr
    rcases database_cases env s caught r with ⟨-, response, heq⟩ | ⟨hnone, -⟩
    · obtain ⟨rfl, rfl⟩ := Prod.mk.inj (heq.symm.trans hr)
      exact ⟨rfl, rfl⟩
    · simp [hnone] at hsome
  cases pc with
  | getOrchestratorAsked sentAt =>
    obtain ⟨hasked, hreport⟩ := Bool.and_eq_true_iff.mp hbreaks
    obtain ⟨rfl, rfl⟩ := Prod.mk.inj (Option.some_inj.mp h)
    refine ⟨rfl, hasked, ?_⟩
    rw [HandlerPc.owes_getOrchestratorReply]
    exact (Bool.not_eq_true' _).mp hreport
  | finalizerAsked sentAt teamName =>
    obtain ⟨hasked, hreport⟩ := Bool.and_eq_true_iff.mp hbreaks
    obtain ⟨rfl, rfl⟩ := Prod.mk.inj (Option.some_inj.mp h)
    refine ⟨rfl, hasked, ?_⟩
    rw [HandlerPc.owes_finalizerReply]
    exact (Bool.not_eq_true' _).mp hreport
  | getOrchestratorReply sentAt report =>
    obtain ⟨howes, hsome⟩ := Bool.and_eq_true_iff.mp hbreaks
    cases report with
    | none => simp [HandlerPc.owes] at howes
    | some report =>
      have hcompleted : report.status = "completed" := by simpa [HandlerPc.owes] using howes
      rw [advance, if_neg (by simp [newStatus_eq_complete.mpr hcompleted]), Option.some_inj] at h
      obtain ⟨hs, hpc'⟩ := hfails hsome h
      exact ⟨hs, howes, hpc'⟩
  | getFinalize =>
    rw [advance, Option.some_inj] at h
    obtain ⟨hs, hpc'⟩ := hfails (by simpa [HandlerPc.breaks, HandlerPc.owes] using hbreaks) h
    exact ⟨hs, rfl, hpc'⟩
  | finalizerReply sentAt teamName report =>
    obtain ⟨howes, hsome⟩ := Bool.and_eq_true_iff.mp hbreaks
    cases report with
    | none => simp [HandlerPc.owes] at howes
    | some report =>
      have hcompleted : report.status = "completed" := by simpa [HandlerPc.owes] using howes
      simp only [advance, endStatus_eq_complete.mpr hcompleted, Option.some_inj] at h
      obtain ⟨hs, hpc'⟩ := hfails hsome h
      exact ⟨hs, howes, hpc'⟩
  -- no other handler is owing
  | _ => simp [HandlerPc.breaks, HandlerPc.owes] at hbreaks

theorem Keeps.of_ne_complete {s s' : Shared} {pc pc' : HandlerPc}
    (hstatus : s'.row.status = "complete" → s.row.status = "complete") (hsent : s.sent ≤ s'.sent)
    (howes : pc.owes asked = false) : Keeps asked s pc s' pc' :=
  ⟨fun h ↦ .inl (hstatus h), hsent, by simp [howes]⟩

/-- A step that leaves the row and the requests alone. -/
theorem Keeps.frame {s s' : Shared} {pc pc' : HandlerPc} (hrow : s'.row = s.row)
    (hrequests : s'.finalizeRequests = s.finalizeRequests) (howes : pc.owes asked = false) :
    Keeps asked s pc s' pc' :=
  .of_ne_complete (fun h ↦ hrow ▸ h) (by rw [Shared.sent, Shared.sent, hrequests]) howes

theorem Keeps.of_some {s s' : Shared} {pc pc' : HandlerPc} {r : Shared × HandlerPc}
    (h : some r = some (s', pc')) (hr : Keeps asked s pc r.1 r.2) : Keeps asked s pc s' pc' := by
  obtain rfl := Option.some_inj.mp h
  exact hr

/-- **The step lemma.** Every other step keeps what is owed. -/
theorem advance_keeps {s s' : Shared} {env : Env} {pc pc' : HandlerPc}
    (hkeeps : pc.breaks asked sub s env = false) (hcopies : pc.Copies)
    (h : advance cfg sub s env pc = some (s', pc')) : Keeps asked s pc s' pc' := by
  cases pc with
  -- first the handlers that owe a request or come to owe one
  | getAskOrchestrator => exact .of_some h (.same fun howes ↦ howes)
  | finalizerAsk teamName => exact .of_some h (.same fun howes ↦ howes)
  | getOrchestratorAsked sentAt =>
    refine .of_some h (.same fun howes ↦ ?_)
    have hasked : asked = true := howes
    rw [HandlerPc.breaks, hasked, Bool.true_and, Bool.not_eq_false'] at hkeeps
    rw [HandlerPc.owes_getOrchestratorReply]
    exact hkeeps
  | finalizerAsked sentAt teamName =>
    refine .of_some h (.same fun howes ↦ ?_)
    have hasked : asked = true := howes
    rw [HandlerPc.breaks, hasked, Bool.true_and, Bool.not_eq_false'] at hkeeps
    rw [HandlerPc.owes_finalizerReply]
    exact hkeeps
  | getOrchestratorReply sentAt report =>
    cases report with
    | none =>
      exact .of_some h (.same (by simp [HandlerPc.owes]))
    | some report =>
      rw [advance] at h
      by_cases hempty : newStatus report.status = ""
      · rw [if_pos hempty] at h
        obtain ⟨rfl, rfl⟩ := Prod.mk.inj (Option.some_inj.mp h)
        refine Keeps.same fun howes ↦ ?_
        have hcompleted : report.status = "completed" := by simpa [HandlerPc.owes] using howes
        simp [newStatus_eq_complete.mpr hcompleted] at hempty
      · rw [if_neg hempty] at h
        refine Keeps.of_database hkeeps (Option.some_inj.mp h)
          ⟨fun hc ↦ .inr ?_, le_rfl, fun ho ↦ .inl ?_⟩
        · have hc : newStatus report.status = "complete" := hc
          simp [hc, HandlerPc.owes]
        · have hc : newStatus report.status = "complete" :=
            newStatus_eq_complete.mpr (by simpa [HandlerPc.owes] using ho)
          simp [hc, HandlerPc.owes]
  | getFinalize =>
    refine Keeps.of_database hkeeps (Option.some_inj.mp h) ⟨.inl, ?_, fun _ ↦ .inr ?_⟩ <;>
      simp [Shared.sent]
  | finalizerReply sentAt teamName report =>
    cases report with
    | none =>
      exact .of_some h (.same (by simp [HandlerPc.owes]))
    | some report =>
      rw [advance] at h
      cases hend : endStatus report.status with
      | none =>
        rw [hend] at h
        obtain ⟨rfl, rfl⟩ := Prod.mk.inj (Option.some_inj.mp h)
        refine Keeps.same fun howes ↦ ?_
        have hcompleted : report.status = "completed" := by simpa [HandlerPc.owes] using howes
        simp [endStatus_eq_complete.mpr hcompleted] at hend
      | some status =>
        rw [hend] at h
        refine Keeps.of_database hkeeps (Option.some_inj.mp h) ⟨fun hc ↦ ?_, ?_, fun ho ↦ .inl ?_⟩
        -- the guarded UPDATE writes 'complete' only where it finds 'testing'
        · by_cases htesting : s.row.status = "testing"
          · have hc : status = "complete" := by
              simpa [Shared.writeIfTesting, htesting, Shared.write] using hc
            exact .inr (by simp [hc, HandlerPc.owes])
          · left
            simpa [Shared.writeIfTesting, htesting] using hc
        · rw [Shared.writeIfTesting]
          split_ifs <;> exact le_rfl
        · have hc : status = "complete" := by
            have hcompleted : report.status = "completed" := by simpa [HandlerPc.owes] using ho
            rw [endStatus_eq_complete.mpr hcompleted] at hend
            exact (Option.some_inj.mp hend).symm
          simp [hc, HandlerPc.owes]
  | finalizerFinalize teamName =>
    obtain ⟨rfl, rfl⟩ := Prod.mk.inj (Option.some_inj.mp h)
    exact ⟨.inl, by simp [Shared.sent], fun _ ↦ .inr (by simp [Shared.sent])⟩
  -- the copy of the sandbox status: never 'complete', by `Copies`
  | getSandboxReply reply =>
    rw [advance] at h
    by_cases hempty : reply.status = ""
    · rw [if_pos hempty] at h
      exact .of_some h (.same (by simp [HandlerPc.owes]))
    · rw [if_neg hempty] at h
      refine Keeps.of_database rfl (Option.some_inj.mp h) (.of_ne_complete (fun hc ↦ ?_) le_rfl rfl)
      exact absurd hc (hcopies reply rfl)
  -- the handlers that write another status
  | startReply attempt =>
    cases attempt with
    | none =>
      exact .of_some h (.same (by simp [HandlerPc.owes]))
    | some attempt =>
      refine Keeps.of_database rfl (Option.some_inj.mp h) (.of_ne_complete ?_ le_rfl rfl)
      simp
  | stopReply sentAt attempt =>
    cases attempt with
    | none =>
      exact .of_some h (.same (by simp [HandlerPc.owes]))
    | some attempt =>
      refine Keeps.of_database rfl (Option.some_inj.mp h) ?_
      rw [Shared.writeIfTesting]
      split_ifs
      · exact .of_ne_complete (by simp [Shared.write]) le_rfl rfl
      · exact Keeps.same (by simp [HandlerPc.owes])
  -- the rest leaves the row and the requests as they are
  | startAsked endpointUrl =>
    rw [advance] at h
    split at h
    · exact .of_some h (.frame rfl rfl rfl)
    · split_ifs at h <;>
      · exact .of_some h (.frame rfl rfl rfl)
  | stopAsked sentAt =>
    rw [advance] at h
    split at h
    · split_ifs at h <;>
      · exact .of_some h (.frame rfl rfl rfl)
    · exact .of_some h (.frame rfl rfl rfl)
  | stopPublish sentAt attempt =>
    obtain ⟨o, -, heq⟩ := Option.map_eq_some_iff.mp h
    obtain ⟨rfl, rfl⟩ := Prod.mk.inj heq
    exact .frame rfl rfl rfl
  | getRead => exact .of_database rfl (Option.some_inj.mp h) (.frame rfl rfl rfl)
  | getAnswer => exact .of_database rfl (Option.some_inj.mp h) (.frame rfl rfl rfl)
  | finalizerRead => exact .of_database rfl (Option.some_inj.mp h) (.frame rfl rfl rfl)
  | done response => simp [advance] at h
  | _ =>
    exact .of_some h (.frame rfl rfl rfl)

/-! ## The law, step by step -/

/-- What a handler is about to copy from the sandbox manager is a status of it. -/
def Finalization.Inv (s : Finalization) : Prop := ∀ pc ∈ s.service.threads, pc.Copies

/-- Only a reply of the sandbox manager is copied. -/
theorem advance_copies {s s' : Shared} {env : Env} {pc pc' : HandlerPc}
    (henv : env.sandbox.FromSandbox) (h : advance cfg sub s env pc = some (s', pc')) :
    pc'.Copies := by
  rintro reply rfl
  have hreply : pc = .getSandboxAsked ∧ env.sandbox = reply := by
    cases pc with
    | getOrchestratorReply sentAt report => cases report <;> grind [advance, Env.database]
    | startReply attempt => cases attempt <;> grind [advance, Env.database]
    | stopReply sentAt attempt => cases attempt <;> grind [advance, Env.database]
    | finalizerReply sentAt teamName report => cases report <;> grind [advance, Env.database]
    | stopPublish sentAt attempt => simp [advance] at h
    | _ => grind [advance, Env.database]
  exact hreply.2 ▸ henv.ne_complete

theorem promises_split (t : Shared) (l r : List HandlerPc) (pc : HandlerPc)
    (inFlight executed : ℕ) :
    (Finalization.mk ⟨t, l ++ pc :: r⟩ inFlight executed).promises asked =
      inFlight + (l ++ r).countP (HandlerPc.owes asked) + if pc.owes asked then 1 else 0 := by
  simp only [Finalization.promises, List.countP_append, List.countP_cons]
  omega

theorem Handler.owes_entry (k : Handler) : k.entry.owes asked = false := by cases k <;> rfl

/-- What a step of the handlers does: one of them is called, or one takes a step. -/
theorem handler_run {s t : State} {i : ℕ} {env : Env}
    (h : step cfg sub s (.handler (.run i env)) = some t) : ∃ l pc r m pc',
      s.threads = l ++ pc :: r ∧ l.length = i ∧ advance cfg sub s.shared env pc = some (m, pc') ∧
        t = ⟨m, l ++ pc' :: r⟩ := by
  have hnext : s.next Handler.entry (advance cfg sub) (.run i env) = some t := h
  exact Pool.next_run hnext

theorem Finalization.Inv.next {s s' : Finalization} {e : FinalizationEvent} (h : s.Inv)
    (hstep : s.step cfg sub e = some s') : s'.Inv := by
  cases e with
  | execute =>
    rw [step] at hstep
    split_ifs at hstep
    obtain rfl := Option.some_inj.mp hstep
    exact h
  | fail =>
    rw [step] at hstep
    split_ifs at hstep
    obtain rfl := Option.some_inj.mp hstep
    exact h
  | service e =>
    rw [step] at hstep
    split_ifs at hstep with hfrom
    obtain ⟨t, ht, rfl⟩ := Option.map_eq_some_iff.mp hstep
    cases e with
    | orchestrator e =>
      obtain ⟨o, -, rfl⟩ := Option.map_eq_some_iff.mp ht
      exact h
    | handler e =>
      cases e with
      | start k =>
        obtain rfl := Option.some_inj.mp ht
        refine Pool.forall_start h fun reply hreply ↦ ?_
        cases k <;> cases hreply
      | run i env =>
        obtain ⟨l, pc, r, m, pc', hthreads, -, hadvance, rfl⟩ := handler_run ht
        have hcopies : ∀ q ∈ l ++ pc :: r, q.Copies := hthreads ▸ h
        exact Pool.forall_run hcopies (fun _ hq ↦ hq) (advance_copies hfrom hadvance)

/-- A handler takes a step. -/
theorem settled_run {t m : Shared} {l r : List HandlerPc} {pc pc' : HandlerPc} {env : Env}
    {inFlight executed : ℕ} (hcopies : pc.Copies)
    (hs : Finalization.Settled asked ⟨⟨t, l ++ pc :: r⟩, inFlight, executed⟩)
    (h : advance cfg sub t env pc = some (m, pc')) :
    (pc.breaks asked sub t env = true →
        Finalization.Spare asked ⟨⟨t, l ++ pc :: r⟩, inFlight, executed⟩) ↔
      Finalization.Settled asked ⟨⟨m, l ++ pc' :: r⟩, inFlight + (m.sent - t.sent), executed⟩ := by
  rw [Finalization.settled_iff, promises_split] at hs ⊢
  dsimp only at hs ⊢
  by_cases hbreaks : pc.breaks asked sub t env = true
  · obtain ⟨rfl, howes, hpc'⟩ := advance_breaks hbreaks h
    simp only [Finalization.Spare, promises_split, hbreaks, howes, hpc', Nat.sub_self]
    grind
  · have hkeeps := advance_keeps (by simpa using hbreaks) hcopies h
    have hsent := hkeeps.sent_le
    refine iff_of_true (fun hb ↦ absurd hb hbreaks) fun hc ↦ ?_
    rcases hkeeps.complete hc with hc | howes
    · rcases hs hc with hexecuted | hpromises
      · exact .inl hexecuted
      · right
        by_cases howes : pc.owes asked = true
        · rcases hkeeps.owed howes with howes' | hlt
          · simp [howes']
          · omega
        · rw [if_neg howes] at hpromises
          omega
    · right
      simp [howes]

/-- **The step lemma of the law.** A step from a settled state leads to a settled state if and only
if it keeps its promise. -/
theorem step_settled {s s' : Finalization} {e : FinalizationEvent} (h : s.Inv)
    (hs : s.Settled asked) (hstep : s.step cfg sub e = some s') :
    KeepsPromise asked sub s e ↔ s'.Settled asked := by
  cases e with
  | execute =>
    rw [Finalization.step] at hstep
    split_ifs at hstep
    obtain rfl := Option.some_inj.mp hstep
    exact iff_of_true trivial fun _ ↦ .inl (Nat.succ_pos _)
  | fail =>
    rw [Finalization.step] at hstep
    split_ifs at hstep with hpos
    obtain rfl := Option.some_inj.mp hstep
    rw [Finalization.settled_iff] at hs ⊢
    rw [KeepsPromise, Finalization.Spare]
    simp only [Finalization.promises] at hs ⊢
    -- a failed request is one promise less: settled again iff another one is left
    grind
  | service e =>
    rw [Finalization.step] at hstep
    split_ifs at hstep with hfrom
    obtain ⟨t, ht, rfl⟩ := Option.map_eq_some_iff.mp hstep
    cases e with
    | orchestrator e =>
      obtain ⟨o, -, rfl⟩ := Option.map_eq_some_iff.mp ht
      refine iff_of_true trivial ?_
      simpa [Finalization.Settled, Shared.sent] using hs
    | handler e =>
      cases e with
      | start k =>
        obtain rfl := Option.some_inj.mp ht
        refine iff_of_true trivial ?_
        simpa [Finalization.Settled, Handler.owes_entry, or_and_right, exists_or] using hs
      | run i env =>
        obtain ⟨l, pc, r, m, pc', hthreads, hi, hadvance, rfl⟩ := handler_run ht
        obtain ⟨⟨shared, threads⟩, inFlight, executed⟩ := s
        dsimp only at hthreads
        subst hthreads
        have hpc : (l ++ pc :: r)[i]? = some pc := by simp [← hi]
        rw [← settled_run (h pc (by simp)) hs hadvance, KeepsPromise, hpc]
        simp

theorem Finalization.settled_initial : Finalization.initial.Settled asked := by
  simp [Finalization.Settled, initial, State.initial]

/-- **When a completed submission is settled.** In both readings, the law holds in all states of a
run if and only if every finalize request that fails, and every handler that a step fails while it
owes one, is one promise out of several, or comes after an execution of `FinalizeRun`, or while the
row is not `complete`. -/
theorem complete_settled_iff (asked : Bool) {es : List FinalizationEvent} {s : Finalization}
    (h : exec (Finalization.step cfg sub) .initial es = some s) :
    (∀ es', es' <+: es → ∀ s', exec (Finalization.step cfg sub) .initial es' = some s' →
        s'.Settled asked) ↔
      Guarded (Finalization.step cfg sub) (KeepsPromise asked sub) .initial es := by
  have hinv : (Finalization.initial).Inv := by
    simp [Finalization.Inv, Finalization.initial, State.initial]
  exact (guarded_iff_prefixes_good (P := Finalization.Inv) (fun _ _ _ h hstep ↦ h.next hstep)
    (fun _ _ _ h hs hstep ↦ step_settled h hs hstep) hinv Finalization.settled_initial h).symm

/-! ## A row that nobody looks at -/

/-- The handler leaves a completed row as it is and sends nothing. -/
def HandlerPc.passes : HandlerPc → Bool
  | .getRead | .getAnswer | .finalizerRead | .done _ => true
  | .stopAsk | .stopAsked _ | .stopPublish _ _ | .stopReply _ _ => true
  | _ => false

/-- The row is `complete`, the run has not been finalized, and no handler is going to do anything
about it. -/
structure Finalization.Forgotten (s : Finalization) : Prop where
  complete : s.service.shared.row.status = "complete"
  executed : s.executed = 0
  inFlight : s.inFlight = 0
  passes : ∀ pc ∈ s.service.threads, pc.passes = true

/-- A new benchmark is asked for. -/
def StartsBenchmark : FinalizationEvent → Prop
  | .service (.handler (.start .postStart)) => True
  | _ => False

theorem passes_of_database {s s' : Shared} {env : Env} {pc' : HandlerPc}
    {caught : String → Option Response} {r : Shared × HandlerPc}
    (h : some (env.database s caught r) = some (s', pc')) (hs : s.row.status = "complete")
    (hr : r.1.row.status = "complete" ∧ r.1.sent = s.sent ∧ r.2.passes = true) :
    s'.row.status = "complete" ∧ s'.sent = s.sent ∧ pc'.passes = true := by
  rcases database_cases env s caught r with ⟨-, response, hfail⟩ | ⟨-, hok⟩
  · obtain ⟨rfl, rfl⟩ := Prod.mk.inj (hfail.symm.trans (Option.some_inj.mp h))
    exact ⟨hs, rfl, rfl⟩
  · obtain rfl := hok.symm.trans (Option.some_inj.mp h)
    exact hr

theorem advance_passes {s s' : Shared} {env : Env} {pc pc' : HandlerPc}
    (hs : s.row.status = "complete") (hpc : pc.passes = true)
    (h : advance cfg sub s env pc = some (s', pc')) :
    s'.row.status = "complete" ∧ s'.sent = s.sent ∧ pc'.passes = true := by
  cases pc with
  | getRead => exact passes_of_database h hs ⟨hs, rfl, by simp [hs, HandlerPc.passes]⟩
  | getAnswer => exact passes_of_database h hs ⟨hs, rfl, rfl⟩
  | finalizerRead =>
    refine passes_of_database h hs ⟨hs, rfl, ?_⟩
    cases sub.teamName <;> simp [hs, HandlerPc.passes]
  | stopAsk =>
    obtain ⟨rfl, rfl⟩ := Prod.mk.inj (Option.some_inj.mp h)
    exact ⟨hs, rfl, rfl⟩
  | stopAsked sentAt =>
    rw [advance] at h
    split at h
    · split_ifs at h <;>
      · obtain ⟨rfl, rfl⟩ := Prod.mk.inj (Option.some_inj.mp h)
        exact ⟨hs, rfl, rfl⟩
    · obtain ⟨rfl, rfl⟩ := Prod.mk.inj (Option.some_inj.mp h)
      exact ⟨hs, rfl, rfl⟩
  | stopPublish sentAt attempt =>
    obtain ⟨o, -, heq⟩ := Option.map_eq_some_iff.mp h
    obtain ⟨rfl, rfl⟩ := Prod.mk.inj heq
    exact ⟨hs, rfl, rfl⟩
  | stopReply sentAt attempt =>
    cases attempt with
    | none =>
      obtain ⟨rfl, rfl⟩ := Prod.mk.inj (Option.some_inj.mp h)
      exact ⟨hs, rfl, rfl⟩
    | some attempt =>
      refine passes_of_database h hs ?_
      rw [Shared.writeIfTesting, if_neg (by simp [hs])]
      exact ⟨hs, rfl, rfl⟩
  | done response => simp [advance] at h
  | _ => simp [HandlerPc.passes] at hpc

/-- **A forgotten run stays forgotten**, whatever is polled, until a new benchmark is asked for. -/
theorem Finalization.Forgotten.next {s s' : Finalization} {e : FinalizationEvent}
    (h : s.Forgotten) (hallowed : ¬StartsBenchmark e) (hstep : s.step cfg sub e = some s') :
    s'.Forgotten := by
  cases e with
  -- no request is in flight that could be served or fail
  | execute => simp [Finalization.step, h.inFlight] at hstep
  | fail => simp [Finalization.step, h.inFlight] at hstep
  | service e =>
    rw [Finalization.step] at hstep
    split_ifs at hstep
    obtain ⟨t, ht, rfl⟩ := Option.map_eq_some_iff.mp hstep
    cases e with
    | orchestrator e =>
      obtain ⟨o, -, rfl⟩ := Option.map_eq_some_iff.mp ht
      exact ⟨h.complete, h.executed, by simp [h.inFlight, Shared.sent], h.passes⟩
    | handler e =>
      cases e with
      | start k =>
        obtain rfl := Option.some_inj.mp ht
        refine ⟨h.complete, h.executed, by simp [h.inFlight], Pool.forall_start h.passes ?_⟩
        cases k with
        | postStart => exact absurd trivial hallowed
        | _ => rfl
      | run i env =>
        obtain ⟨l, pc, r, m, pc', hthreads, hi, hadvance, rfl⟩ := handler_run ht
        have hpasses := h.passes
        rw [hthreads] at hpasses
        obtain ⟨hstatus, hsent, hpc'⟩ := advance_passes h.complete (hpasses pc (by simp)) hadvance
        exact ⟨hstatus, h.executed, by simp [h.inFlight, hsent],
          Pool.forall_run hpasses (fun _ hq ↦ hq) hpc'⟩

/-! ## A finalize request that fails -/

/-- A handler is called and takes some steps. -/
def handle (k : Handler) (i n : ℕ) : List FinalizationEvent :=
  .service (.handler (.start k)) :: List.replicate n (.service (.handler (.run i sampleEnv)))

/-- A benchmark runs to its end, and a round of the finalizer finds it `completed`. -/
def finalizedRun : List FinalizationEvent :=
  handle .postStart 0 5 ++
    List.replicate 30 (.service (.orchestrator (.run 0 ⟨"12:00:00", .sent⟩))) ++
    handle .finalizer 1 5

theorem complete_settled_executed : ∃ s,
    exec (Finalization.step sampleConfig sampleSubmission) .initial (finalizedRun ++ [.execute]) =
      some s ∧ s.service.shared.row.status = "complete" ∧
      ∀ asked es', es' <+: finalizedRun ++ [.execute] → ∀ s',
        exec (Finalization.step sampleConfig sampleSubmission) .initial es' = some s' →
          s'.Settled asked := by
  have hrun : ((exec (Finalization.step sampleConfig sampleSubmission) .initial
      (finalizedRun ++ [.execute])).any fun s ↦
        decide (s.service.shared.row.status = "complete")) = true := by decide +kernel
  obtain ⟨s, hs, hstatus⟩ := (Option.any_eq_true _ _).mp hrun
  refine ⟨s, hs, of_decide_eq_true hstatus, fun asked ↦ (complete_settled_iff asked hs).mpr ?_⟩
  cases asked with
  | false => decide +kernel
  | true => decide +kernel

theorem failed_request_forgotten : ∃ s,
    exec (Finalization.step sampleConfig sampleSubmission) .initial (finalizedRun ++ [.fail]) =
      some s ∧ (∀ asked, ¬s.Settled asked) ∧
      ∀ es' s', Guarded (Finalization.step sampleConfig sampleSubmission)
          (fun _ e ↦ ¬StartsBenchmark e) s es' →
        exec (Finalization.step sampleConfig sampleSubmission) s es' = some s' →
          s'.service.shared.row.status = "complete" ∧ s'.executed = 0 ∧ s'.inFlight = 0 := by
  have hrun : ((exec (Finalization.step sampleConfig sampleSubmission) .initial
      (finalizedRun ++ [.fail])).any fun s ↦
        decide (s.service.shared.row.status = "complete" ∧ s.executed = 0 ∧ s.inFlight = 0 ∧
          (∀ pc ∈ s.service.threads, pc.passes = true) ∧
          ∀ asked, ∀ pc ∈ s.service.threads, pc.owes asked = false)) = true := by decide +kernel
  obtain ⟨s, hs, h⟩ := (Option.any_eq_true _ _).mp hrun
  obtain ⟨hstatus, hexecuted, hinFlight, hpasses, howes⟩ := of_decide_eq_true h
  refine ⟨s, hs, fun asked hsettled ↦ ?_, fun es' s' hallowed hexec ↦ ?_⟩
  · rcases hsettled hstatus with h | h | ⟨pc, hpc, ho⟩
    · omega
    · omega
    · simp [howes asked pc hpc] at ho
  · have hforgotten : s.Forgotten := ⟨hstatus, hexecuted, hinFlight, hpasses⟩
    have h' := hallowed.invariant (fun _ _ _ h ha hstep ↦ h.next ha hstep) hforgotten hexec
    exact ⟨h'.complete, h'.executed, h'.inFlight⟩

end BenchmarkPlatform.Submissions
