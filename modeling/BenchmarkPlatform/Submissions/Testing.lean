import BenchmarkPlatform.Submissions.Server

/-!
# How a submission leaves `'testing'`

POST start sets a submission to `'testing'` for an attempt. The attempt should end there only by
what the orchestrator said of it, or by a POST stop of it. A handler that read the row or asked
another service before the attempt began can still write when the attempt is running: the status
poll writes without looking at the row again, and to find the row `'testing'` does not tell one
attempt from another.

`Timely` is the condition: POST start writes for the latest attempt, while no handler in flight
holds a write of an earlier time; as long as the row is `'testing'` for an attempt, no other attempt
begins, and a status poll that has asked the sandbox manager gets no status to write.
-/

namespace BenchmarkPlatform.Submissions

open Lib

variable {cfg : Orchestrator.Config} {sub : Submission} {s s' : State}

/-! ## The condition -/

/-- The write ends attempt `n` by what became of attempt `n`, and was asked for when it had begun.
-/
def Writer.Legit (n : ℕ) : Writer → Prop
  | .sandbox => False
  | .orchestrator sentAt report =>
    report.attempt = n ∧ n < sentAt ∧ report.status ∈ ["completed", "failed", "stopped"]
  | .stop sentAt attempt => attempt = n ∧ n < sentAt

def State.EndsLegit (s : State) : Prop := ∀ p ∈ s.shared.endings, p.2.Legit p.1

instance (n : ℕ) : DecidablePred (Writer.Legit n)
  | .sandbox => inferInstanceAs (Decidable False)
  | .orchestrator sentAt report => inferInstanceAs (Decidable (report.attempt = n ∧ n < sentAt ∧
      report.status ∈ ["completed", "failed", "stopped"]))
  | .stop sentAt attempt => inferInstanceAs (Decidable (attempt = n ∧ n < sentAt))

instance (s : State) : Decidable s.EndsLegit :=
  inferInstanceAs (Decidable (∀ p ∈ s.shared.endings, p.2.Legit p.1))

/-- The handler holds no write that is not of attempt `n`. -/
def HandlerPc.Harmless (n : ℕ) : HandlerPc → Prop
  | .getSandboxReply reply => reply.status = ""
  | .getOrchestratorAsked sentAt => n < sentAt
  | .getOrchestratorReply sentAt (some report) =>
    newStatus report.status = "" ∨ (report.attempt = n ∧ n < sentAt)
  | .stopAsked sentAt => n < sentAt
  | .stopPublish sentAt attempt => attempt = n ∧ n < sentAt
  | .stopReply sentAt (some attempt) => attempt = n ∧ n < sentAt
  | .finalizerAsked sentAt _ => n < sentAt
  | .finalizerReply sentAt _ (some report) =>
    endStatus report.status = none ∨ (report.attempt = n ∧ n < sentAt)
  | _ => True

/-- The row is not `'testing'` for an attempt, or the orchestrator is not done with the run. -/
def Shared.NoRestart (s : Shared) (id : String) : Prop :=
  s.row.attempt = none ∨ ∃ a ∈ s.orchestrator.attempt id, ¬a.run.status.Terminal

/-- POST start writes for the latest attempt and while the other handlers are harmless. While the
row is `'testing'` for an attempt, no other begins, and the sandbox manager reports no status. -/
def Timely (cfg : Orchestrator.Config) (sub : Submission) (s : State) : Event → Prop
  | .handler (.start _) => True
  | .handler (.run i env) =>
    match s.threads[i]? with
    | some (.startReply (some n)) => env.dbError = none →
      s.shared.orchestrator.runs.lookup sub.id = some n ∧ ∀ pc ∈ s.threads, pc.Harmless n
    | some (.startAsked _) => env.served = true → s.shared.NoRestart sub.id
    | some .getSandboxAsked => env.sandbox.status = "" ∨ s.shared.row.attempt = none
    | _ => True
  | .orchestrator (.start req uuid _) =>
    match req.resolve cfg uuid with
    | .ok r => r.runId = sub.id → s.shared.NoRestart sub.id
    | .error _ => True
  | .orchestrator _ => True

instance (n : ℕ) (pc : HandlerPc) : Decidable (pc.Harmless n) := by
  rw [HandlerPc.Harmless.eq_def]
  split <;> infer_instance

instance (s : Shared) (id : String) : Decidable (s.NoRestart id) :=
  inferInstanceAs (Decidable
    (s.row.attempt = none ∨ ∃ a ∈ s.orchestrator.attempt id, ¬a.run.status.Terminal))

instance (s : State) : DecidablePred (Timely cfg sub s)
  | .handler (.start _) => inferInstanceAs (Decidable True)
  | .handler (.run i env) => by
    rw [Timely]
    split <;> infer_instance
  | .orchestrator (.start req uuid _) => by
    rw [Timely]
    split <;> infer_instance
  | .orchestrator (.stop _ _) => inferInstanceAs (Decidable True)
  | .orchestrator (.publishStop _ _) => inferInstanceAs (Decidable True)
  | .orchestrator (.run _ _) => inferInstanceAs (Decidable True)

/-! ## One step of one handler -/

/-- The orchestrator served the handler, or took no step. Only POST start has it start a run. -/
def Served (cfg : Orchestrator.Config) (env : Env) (pc : HandlerPc) (o o' : Orchestrator.State) :
    Prop :=
  o' = o ∨ ∃ e, Orchestrator.step cfg o e = some o' ∧
    ∀ req uuid now, e = .start req uuid now → env.served = true ∧ ∃ url, pc = .startAsked url

/-- What a step of a handler does to the row. -/
inductive Effect (cfg : Orchestrator.Config) (sub : Submission) (env : Env) (s : Shared)
    (pc : HandlerPc) (s' : Shared) (pc' : HandlerPc) : Prop
  | keep (hrow : s'.row = s.row) (hendings : s'.endings = s.endings)
      (hserved : Served cfg env pc s.orchestrator s'.orchestrator)
      (hpc : ∀ n, s.row.status = "testing" → s.orchestrator.runs.lookup sub.id = some n →
        n < s.orchestrator.attempts.length →
        (pc = .getSandboxAsked → env.sandbox.status = "") → pc.Harmless n → pc'.Harmless n)
  | write (w : Writer) (status errorMsg : String) (hs : s' = s.write w status errorMsg)
      (hw : ∀ n, pc.Harmless n → w.Legit n)
  | start (n : ℕ) (hdb : env.dbError = none) (hpc : pc = .startReply (some n))
      (hpc' : ∀ m, pc'.Harmless m)
      (hs : s' = { s with row := ⟨"testing", s.row.errorMsg, some n⟩ })

variable {t t' : Shared} {pc pc' : HandlerPc} {env : Env}

theorem Effect.of_database {caught : String → Option Response} {r : Shared × HandlerPc}
    (h : env.dbError = none → Effect cfg sub env t pc r.1 r.2) :
    Effect cfg sub env t pc (env.database t caught r).1 (env.database t caught r).2 := by
  rw [Env.database]
  cases hdb : env.dbError with
  | none => exact h hdb
  | some message => exact .keep rfl rfl (Or.inl rfl) fun _ _ _ _ _ _ ↦ trivial

/-- A step that leaves the row alone and lets the handler go on to what is harmless. -/
theorem Effect.of_harmless (hrow : t'.row = t.row) (hendings : t'.endings = t.endings)
    (hserved : Served cfg env pc t.orchestrator t'.orchestrator) (h : ∀ n, pc'.Harmless n) :
    Effect cfg sub env t pc t' pc' :=
  .keep hrow hendings hserved fun n _ _ _ _ _ ↦ h n

theorem Effect.same (h : ∀ n, pc'.Harmless n) : Effect cfg sub env t pc t pc' :=
  .of_harmless rfl rfl (Or.inl rfl) h

theorem Shared.report_eq_some {id : String} {report : Report} (h : t.report id env = some report) :
    t.orchestrator.runs.lookup id = some report.attempt := by
  rw [Shared.report] at h
  split at h
  · rename_i k run hk hrun
    split at h
    · rw [← Option.some_inj.mp h]
      exact hk
    · exact absurd h (by simp)
  · exact absurd h (by simp)

theorem endStatus_mem {status written : String} (h : endStatus status = some written) :
    status ∈ ["completed", "failed", "stopped"] := by
  rw [endStatus] at h
  split_ifs at h with h₁ h₂ h₃ <;> simp [*]

theorem newStatus_mem {status : String} (h : newStatus status ≠ "") :
    status ∈ ["completed", "failed", "stopped"] := by
  rw [newStatus] at h
  split_ifs at h with h₁ h₂ <;> simp_all

theorem Effect.of_writeIfTesting {w : Writer} {status : String} (hpc' : ∀ n, pc'.Harmless n)
    (hw : ∀ n, pc.Harmless n → w.Legit n) :
    Effect cfg sub env t pc (t.writeIfTesting w status) pc' := by
  rw [Shared.writeIfTesting]
  split_ifs
  · exact .write w status t.row.errorMsg rfl hw
  · exact .same hpc'

theorem Effect.of_some {r : Shared × HandlerPc} (h : some r = some (t', pc'))
    (heffect : Effect cfg sub env t pc r.1 r.2) : Effect cfg sub env t pc t' pc' := by
  obtain rfl := Option.some_inj.mp h
  exact heffect

/-- **What a step of a handler does to the row.** -/
theorem advance_effect (h : advance cfg sub t env pc = some (t', pc')) :
    Effect cfg sub env t pc t' pc' := by
  cases pc with
  | getRead =>
    refine .of_some h (.of_database fun _ ↦ .keep rfl rfl (Or.inl rfl) fun n htesting _ _ _ _ ↦ ?_)
    dsimp only
    rw [if_pos htesting]
    trivial
  | getAskOrchestrator | finalizerAsk _ | stopAsk =>
    exact .of_some h (.keep rfl rfl (Or.inl rfl) fun n _ _ hn _ _ ↦ hn)
  | getOrchestratorAsked sentAt | finalizerAsked sentAt _ =>
    refine .of_some h (.keep rfl rfl (Or.inl rfl) fun n _ hk _ _ hsent ↦ ?_)
    dsimp only
    cases hreport : t.report sub.id env with
    | none => trivial
    | some report =>
      -- the report is about the attempt that the id leads to when it is asked for
      have hattempt := (Shared.report_eq_some hreport).symm.trans hk
      exact Or.inr ⟨Option.some_inj.mp hattempt, hsent⟩
  | getOrchestratorReply sentAt report =>
    cases report with
    | none => exact .of_some h (.same fun _ ↦ trivial)
    | some report =>
      rw [advance] at h
      by_cases hnew : newStatus report.status = ""
      · rw [if_pos hnew] at h
        exact .of_some h (.same fun _ ↦ trivial)
      · rw [if_neg hnew] at h
        refine .of_some h (.of_database fun _ ↦ .write _ _ _ rfl fun n hn ↦ ?_)
        obtain ⟨hattempt, hsent⟩ := hn.resolve_left hnew
        exact ⟨hattempt, hsent, newStatus_mem hnew⟩
  | getFinalize =>
    exact .of_some h (.of_database fun _ ↦ .of_harmless rfl rfl (Or.inl rfl) fun _ ↦ trivial)
  | getAnswer => exact .of_some h (.of_database fun _ ↦ .same fun _ ↦ trivial)
  | getAskSandbox => exact .of_some h (.same fun _ ↦ trivial)
  | getSandboxAsked =>
    exact .of_some h (.keep rfl rfl (Or.inl rfl) fun _ _ _ _ hempty _ ↦ hempty rfl)
  | getSandboxReply reply =>
    rw [advance] at h
    split_ifs at h with hreply
    · exact .of_some h (.same fun _ ↦ trivial)
    · exact .of_some h (.of_database fun _ ↦ .write _ _ _ rfl fun n hn ↦ absurd hn hreply)
  | startAskSandbox | startSandboxAsked => exact .of_some h (.same fun _ ↦ trivial)
  | startSandboxReply reply =>
    refine .of_some h (.same fun _ ↦ ?_)
    dsimp only
    split_ifs <;> trivial
  | startAsked endpointUrl =>
    rw [advance] at h
    split at h
    · exact .of_some h (.same fun _ ↦ trivial)
    · rename_i o hstart
      by_cases hserved : env.served = true
      · rw [if_pos hserved] at h
        -- served: the orchestrator has started the run, whether or not the reply comes back
        have hmoved : Served cfg env (.startAsked endpointUrl) t.orchestrator o := by
          refine Or.inr ⟨.start (startPayload sub.id endpointUrl) env.uuid env.now, ?_, ?_⟩
          · rw [Orchestrator.step, hstart]
          · exact fun _ _ _ _ ↦ ⟨hserved, endpointUrl, rfl⟩
        refine .of_some h (.of_harmless rfl rfl hmoved fun _ ↦ ?_)
        split_ifs <;> trivial
      · rw [if_neg hserved] at h
        exact .of_some h (.same fun _ ↦ trivial)
  | startReply attempt =>
    cases attempt with
    | none => exact .of_some h (.same fun _ ↦ trivial)
    | some n => exact .of_some h (.of_database fun hdb ↦ .start n hdb rfl (fun _ ↦ trivial) rfl)
  | stopAsked sentAt =>
    rw [advance] at h
    split at h
    · rename_i k o hk hstop
      split_ifs at h
      -- the flag of the latest attempt is set
      · have hserved : Served cfg env (.stopAsked sentAt) t.orchestrator o := by
          refine Or.inr ⟨.stop sub.id env.now, ?_, by simp⟩
          rw [Orchestrator.step, hstop]
        refine .of_some h (.keep rfl rfl hserved fun n _ hn _ _ hsent ↦ ?_)
        exact ⟨Option.some_inj.mp (hk.symm.trans hn), hsent⟩
      · exact .of_some h (.same fun _ ↦ trivial)
    · exact .of_some h (.same fun _ ↦ trivial)
  | stopPublish sentAt attempt =>
    obtain ⟨o, hpublish, heq⟩ := Option.map_eq_some_iff.mp h
    obtain ⟨rfl, rfl⟩ := Prod.mk.inj heq
    refine .keep rfl rfl (Or.inr ⟨_, hpublish, by simp⟩) fun n _ _ _ _ hn ↦ ?_
    cases env.delivery with
    | sent =>
      dsimp only
      split_ifs
      · exact hn
      · trivial
    | threw error reached => trivial
  | stopReply sentAt attempt =>
    cases attempt with
    | none => exact .of_some h (.same fun _ ↦ trivial)
    | some k =>
      exact .of_some h (.of_database fun _ ↦ .of_writeIfTesting (fun _ ↦ trivial) fun _ hn ↦ hn)
  | finalizerRead =>
    refine .of_some h (.of_database fun _ ↦ .same fun _ ↦ ?_)
    dsimp only
    split
    · split_ifs <;> trivial
    · trivial
  | finalizerReply sentAt teamName report =>
    cases report with
    | none => exact .of_some h (.same fun _ ↦ trivial)
    | some report =>
      rw [advance] at h
      split at h
      · exact .of_some h (.same fun _ ↦ trivial)
      · rename_i status hstatus
        refine .of_some h (.of_database fun _ ↦ .of_writeIfTesting (fun _ ↦ ?_) fun n hn ↦ ?_)
        · split_ifs <;> trivial
        · obtain ⟨hattempt, hsent⟩ := hn.resolve_left (by rw [hstatus]; simp)
          exact ⟨hattempt, hsent, endStatus_mem hstatus⟩
  | finalizerFinalize teamName =>
    exact .of_some h (.of_harmless rfl rfl (Or.inl rfl) fun _ ↦ trivial)
  | done response => exact absurd h (by simp [advance])

/-! ## Steps and runs -/

/-- While the row is `'testing'` for an attempt, that attempt is the latest and no handler in flight
can write of another. -/
structure State.Inv (sub : Submission) (s : State) : Prop where
  indexed : s.shared.orchestrator.Indexed
  legit : s.EndsLegit
  testing : ∀ n, s.shared.row.attempt = some n → s.shared.row.status = "testing" ∧
    s.shared.orchestrator.runs.lookup sub.id = some n ∧ ∀ pc ∈ s.threads, pc.Harmless n

theorem Served.indexed {o o' : Orchestrator.State} (h : Served cfg env pc o o')
    (ho : o.Indexed) : o'.Indexed := by
  rcases h with rfl | ⟨e, hstep, -⟩
  · exact ho
  · exact Orchestrator.step_indexed ho hstep

/-- A handler that does not start a run, or would start one over another, changes no run. -/
theorem Served.lookup {o o' : Orchestrator.State} {id : String} (h : Served cfg env pc o o')
    (hbusy : ∀ url, pc = .startAsked url → env.served = true →
      ∃ a ∈ o.attempt id, ¬a.run.status.Terminal) :
    o'.runs.lookup id = o.runs.lookup id := by
  rcases h with rfl | ⟨e, hstep, hstart⟩
  · rfl
  · rcases Orchestrator.step_lookup id hstep with h | ⟨req, uuid, now, r, rfl, -, -, hover⟩
    · exact h
    · obtain ⟨hserved, url, hpc⟩ := hstart req uuid now rfl
      obtain ⟨a, ha, hterminal⟩ := hbusy url hpc hserved
      exact absurd (hover a ha) hterminal

theorem step_handler_inv {i : ℕ} (h : s.Inv sub) (htime : Timely cfg sub s (.handler (.run i env)))
    (hstep : step cfg sub s (.handler (.run i env)) = some s') : s'.Inv sub := by
  have hnext : s.next Handler.entry (advance cfg sub) (.run i env) = some s' := hstep
  obtain ⟨l, pc, r, t', pc', hthreads, rfl, hadvance, rfl⟩ := Pool.next_run hnext
  have hpc : s.threads[l.length]? = some pc := by rw [hthreads]; simp
  have hmem : pc ∈ s.threads := by rw [hthreads]; simp
  -- the other threads keep their program counters
  have hpool : ∀ n, (∀ q ∈ s.threads, q.Harmless n) → pc'.Harmless n →
      ∀ q ∈ l ++ pc' :: r, q.Harmless n := by
    intro n hall hn
    rw [hthreads] at hall
    exact Pool.forall_run hall (fun _ hq ↦ hq) hn
  cases advance_effect hadvance with
  | keep hrow hendings hserved hharmless =>
    refine ⟨hserved.indexed h.indexed, ?_, fun n hn ↦ ?_⟩
    · rw [State.EndsLegit, hendings]
      exact h.legit
    · dsimp only at hn ⊢
      rw [hrow] at hn ⊢
      obtain ⟨hstatus, hlookup, hall⟩ := h.testing n hn
      -- by timeliness a run of a 'testing' row is not started over
      have hbusy : ∀ url, pc = .startAsked url → env.served = true →
          ∃ a ∈ s.shared.orchestrator.attempt sub.id, ¬a.run.status.Terminal := by
        rintro url rfl hserve
        rw [Timely, hpc] at htime
        rcases htime hserve with hnone | hbusy
        · rw [hn] at hnone
          exact absurd hnone (by simp)
        · exact hbusy
      have hempty : pc = .getSandboxAsked → env.sandbox.status = "" := by
        rintro rfl
        rw [Timely, hpc] at htime
        refine htime.resolve_right fun hnone ↦ ?_
        rw [hn] at hnone
        exact absurd hnone (by simp)
      refine ⟨hstatus, (hserved.lookup hbusy).trans hlookup, hpool n hall ?_⟩
      exact hharmless n hstatus hlookup (h.indexed _ n hlookup) hempty (hall pc hmem)
  | write w status errorMsg hs hw =>
    subst hs
    refine ⟨h.indexed, fun p hp ↦ ?_, fun n hn ↦ absurd hn (by simp [Shared.write])⟩
    rcases List.mem_append.mp hp with hp | hp
    · exact h.legit p hp
    · obtain ⟨n, hn, rfl⟩ := List.mem_map.mp hp
      rw [Option.mem_toList] at hn
      exact hw n ((h.testing n hn).2.2 pc hmem)
  | start n hdb hstart hharmless hs =>
    subst hs hstart
    rw [Timely, hpc] at htime
    obtain ⟨hlookup, hall⟩ := htime hdb
    refine ⟨h.indexed, h.legit, fun m hm ↦ ?_⟩
    rw [← Option.some_inj.mp hm]
    exact ⟨rfl, hlookup, hpool n hall (hharmless n)⟩

theorem step_orchestrator_inv {e : Orchestrator.Event} (h : s.Inv sub)
    (htime : Timely cfg sub s (.orchestrator e))
    (hstep : step cfg sub s (.orchestrator e) = some s') : s'.Inv sub := by
  obtain ⟨o, ho, rfl⟩ := Option.map_eq_some_iff.mp hstep
  refine ⟨Orchestrator.step_indexed h.indexed ho, h.legit, fun n hn ↦ ?_⟩
  obtain ⟨hstatus, hlookup, hall⟩ := h.testing n hn
  refine ⟨hstatus, ?_, hall⟩
  rcases Orchestrator.step_lookup sub.id ho with hsame | ⟨req, uuid, now, r, rfl, hr, hid, hover⟩
  · exact hsame.trans hlookup
  · rw [Timely, hr] at htime
    have hn : s.shared.row.attempt = some n := hn
    rcases htime hid with hnone | ⟨a, ha, hterminal⟩
    · rw [hn] at hnone
      exact absurd hnone (by simp)
    · rw [← hid] at ha
      exact absurd (hover a (hid ▸ ha)) hterminal

theorem step_inv {e : Event} (h : s.Inv sub) (htime : Timely cfg sub s e)
    (hstep : step cfg sub s e = some s') : s'.Inv sub := by
  cases e with
  | orchestrator e => exact step_orchestrator_inv h htime hstep
  | handler e =>
    cases e with
    | run i env => exact step_handler_inv h htime hstep
    | start k =>
      rw [← Option.some_inj.mp hstep]
      refine ⟨h.indexed, h.legit, fun n hn ↦ ?_⟩
      obtain ⟨hstatus, hlookup, hall⟩ := h.testing n hn
      refine ⟨hstatus, hlookup, Pool.forall_start hall ?_⟩
      cases k <;> trivial

/-- **How a submission leaves `'testing'`.** In every run in which POST start is timely, an attempt
is ended in the row by a report of the orchestrator on that attempt or by a POST stop of it, asked
for after the attempt had begun. -/
theorem testing_ends_legit (status errorMsg : String) {es : List Event}
    (htime : Guarded (step cfg sub) (Timely cfg sub) (State.initial status errorMsg) es)
    (hexec : exec (step cfg sub) (State.initial status errorMsg) es = some s) : s.EndsLegit := by
  have hinitial : (State.initial status errorMsg).Inv sub := by
    refine ⟨fun id k hk ↦ ?_, fun p hp ↦ ?_, fun n hn ↦ ?_⟩
    · simp [State.initial, Orchestrator.State.initial] at hk
    · simp [State.initial] at hp
    · simp [State.initial] at hn
  exact (htime.invariant (fun _ _ _ h ht hstep ↦ step_inv h ht hstep) hinitial hexec).legit

/-! ## A status poll that straddles a start -/

def sampleConfig : Orchestrator.Config := ⟨10, ["BTC"]⟩

def sampleSubmission : Submission := ⟨"submission", some "team"⟩

/-- The sandbox is ready, and every call arrives. -/
def sampleEnv : Env := ⟨"12:00:00", "", none, ⟨"ready", "", "http://sut"⟩, true, true, .sent⟩

def steps (i n : ℕ) : List Event := List.replicate n (.handler (.run i sampleEnv))

/-- A benchmark is started and stopped. -/
def stoppedRun : List Event :=
  [.handler (.start .postStart)] ++ steps 0 5 ++ [.handler (.start .postStop)] ++ steps 1 4

/-- A status poll asks the sandbox; then a benchmark is started; then the poll gets its answer. -/
def straddlingPoll : List Event :=
  [.handler (.start .getStatus)] ++ steps 0 2 ++ [.handler (.start .postStart)] ++ steps 1 5 ++
    steps 0 2

theorem testing_ends_legit_stoppedRun : ∃ s,
    exec (step sampleConfig sampleSubmission) (State.initial "ready" "") stoppedRun = some s ∧
      s.shared.endings.length = 1 ∧ s.EndsLegit := by
  have hrun : ((exec (step sampleConfig sampleSubmission) (State.initial "ready" "")
      stoppedRun).any fun s ↦ decide (s.shared.endings.length = 1)) = true := by decide +kernel
  obtain ⟨s, hs, hlength⟩ := (Option.any_eq_true _ _).mp hrun
  exact ⟨s, hs, of_decide_eq_true hlength,
    testing_ends_legit "ready" "" (by decide +kernel) hs⟩

theorem straddlingPoll_not_legit : ∃ s,
    exec (step sampleConfig sampleSubmission) (State.initial "ready" "") straddlingPoll = some s ∧
      s.shared.row.status = "ready" ∧ ¬s.EndsLegit := by
  have hrun : ((exec (step sampleConfig sampleSubmission) (State.initial "ready" "")
      straddlingPoll).any fun s ↦
        decide (s.shared.row.status = "ready" ∧ ¬s.EndsLegit)) = true := by
    decide +kernel
  obtain ⟨s, hs, h⟩ := (Option.any_eq_true _ _).mp hrun
  exact ⟨s, hs, of_decide_eq_true h⟩

end BenchmarkPlatform.Submissions
