import BenchmarkPlatform.Scoring.Scorer
import BenchmarkPlatform.Submissions.Server

/-!
# Repeated attempts

POST start of `submission-svc` asks the orchestrator for a run whose id is the id of the submission,
and the orchestrator accepts it again once the attempt before has ended. The telemetry of an attempt
carries the run id of its assignments, and the scorer keeps the metrics of a run id for ever. So the
score of an attempt is that of all attempts together, and it is the attempt's own score exactly if
no earlier attempt has delivered an event.

The sibling endpoint, which records a benchmark in the table of runs, makes a fresh run id each
time.
-/

namespace BenchmarkPlatform.Scoring

open Lib

/-! ## The orchestrator names its runs -/

/-- The run that a run id leads to has that id. -/
def RunsNamed (o : Orchestrator.State) : Prop :=
  o.Indexed ∧ ∀ runId k a, o.runs.lookup runId = some k → o.attempts[k]? = some a →
    a.run.runId = runId

theorem runsNamed_initial : RunsNamed .initial := by
  constructor <;> simp [Orchestrator.State.Indexed, Orchestrator.State.initial]

theorem runId_next {env : Orchestrator.Env} {a b : Orchestrator.Attempt}
    {out : List Orchestrator.BotAssignment} (h : a.next env = some (b, out)) :
    b.run.runId = a.run.runId := by
  obtain ⟨run, pc⟩ := a
  rcases pc with (_ | ⟨instr, rest⟩) | ⟨phase, error⟩
  · simp [Orchestrator.Attempt.next] at h
  · cases instr <;> simp only [Orchestrator.Attempt.next, Option.some_inj, Prod.mk.injEq] at h
    all_goals obtain ⟨rfl, -⟩ := h
    all_goals first | rfl | (split <;> rfl)
  · simp only [Orchestrator.Attempt.next, Option.some_inj, Prod.mk.injEq] at h
    obtain ⟨rfl, -⟩ := h
    rfl

theorem runsNamed_set {o : Orchestrator.State} {k : ℕ} {a b : Orchestrator.Attempt}
    (h : RunsNamed o) (ha : o.attempts[k]? = some a) (hid : b.run.runId = a.run.runId) :
    ∀ runId j c, o.runs.lookup runId = some j → (o.attempts.set k b)[j]? = some c →
      c.run.runId = runId := by
  intro runId j c hj hc
  rw [List.getElem?_set] at hc
  split_ifs at hc with hkj hlt
  · obtain rfl := Option.some_inj.mp hc
    rw [hid]
    exact h.2 runId k a (hkj ▸ hj) ha
  · exact h.2 runId j c hj hc

theorem runsNamed_startBenchmark {cfg : Orchestrator.Config} {uuid now : String}
    {req : Orchestrator.StartBenchmarkRequest} {o o' : Orchestrator.State} (h : RunsNamed o)
    (hstart : o.startBenchmark cfg uuid now req = .ok o') : RunsNamed o' := by
  have hstep : Orchestrator.step cfg o (.start req uuid now) = some o' := by
    rw [Orchestrator.step, hstart]
  refine ⟨Orchestrator.step_indexed h.1 hstep, fun runId k a hk ha ↦ ?_⟩
  obtain ⟨r, -, -, rfl⟩ := Orchestrator.State.startBenchmark_ok hstart
  dsimp only at hk ha
  rcases eq_or_ne runId r.runId with rfl | hne
  · rw [Finmap.lookup_insert, Option.some_inj] at hk
    subst hk
    rw [List.getElem?_concat_length, Option.some_inj] at ha
    subst ha
    rfl
  · rw [Finmap.lookup_insert_of_ne _ hne] at hk
    rw [List.getElem?_append_left (h.1 runId k hk)] at ha
    exact h.2 runId k a hk ha

theorem runsNamed_step {cfg : Orchestrator.Config} {o o' : Orchestrator.State}
    {e : Orchestrator.Event} (h : RunsNamed o) (hstep : Orchestrator.step cfg o e = some o') :
    RunsNamed o' := by
  have hindexed := Orchestrator.step_indexed h.1 hstep
  cases e with
  | start req uuid now =>
    rcases Orchestrator.step_start hstep with rfl | hstart
    · exact h
    · exact runsNamed_startBenchmark h hstart
  | stop runId now =>
    rcases Orchestrator.step_stop hstep with rfl | hstop
    · exact h
    · obtain ⟨k, a, -, ha, -, rfl⟩ := Orchestrator.State.stopBenchmark_ok hstop
      exact ⟨hindexed, runsNamed_set h ha rfl⟩
  | publishStop k delivery =>
    obtain ⟨a, -, -, rfl⟩ := Orchestrator.step_publishStop hstep
    exact ⟨hindexed, h.2⟩
  | run k env =>
    obtain ⟨a, b, out, ha, hnext, rfl⟩ := Orchestrator.step_run hstep
    exact ⟨hindexed, runsNamed_set h ha (runId_next hnext)⟩

/-! ## The system -/

/-- The two numbers of events are kept for the statements only. -/
structure Campaign where
  orchestrator : Orchestrator.State
  scorer : Runs
  /-- The calls of the scorer up to the start of the latest attempt. -/
  earlier : List ScorerCall
  /-- The calls since then. -/
  current : List ScorerCall
  /-- The number of telemetry events of the attempts before the latest one. -/
  earlierEvents : ℕ
  currentEvents : ℕ

def Campaign.initial : Campaign := ⟨.initial, Runs.replay [], [], [], 0, 0⟩

inductive CampaignEvent where
  /-- POST start sends its request to the orchestrator. -/
  | start (uuid now endpointUrl : String)
  /-- A run is stopped, an executor or a stopper takes a step, or another run is started. -/
  | orchestrator (e : Orchestrator.Event)
  /-- An event of the latest attempt reaches the scorer. -/
  | telemetry (event : TelemetryEvent)
  /-- An event of another run reaches it. -/
  | foreign (event : TelemetryEvent)
  | flushTps

/-- A call that brings in `own` events of the latest attempt. -/
def Campaign.call (c : Campaign) (own : ℕ) (call : ScorerCall) : Campaign :=
  { c with
    scorer := c.scorer.apply call
    current := c.current ++ [call]
    currentEvents := c.currentEvents + own }

/-- One step, for the submission `id`. -/
def Campaign.step (cfg : Orchestrator.Config) (id : String) (c : Campaign) :
    CampaignEvent → Option Campaign
  | .start uuid now endpointUrl =>
    match c.orchestrator.startBenchmark cfg uuid now (Submissions.startPayload id endpointUrl) with
    | .error _ => none
    | .ok o =>
      some ⟨o, c.scorer, c.earlier ++ c.current, [], c.earlierEvents + c.currentEvents, 0⟩
  | .orchestrator e => (Orchestrator.step cfg c.orchestrator e).bind fun o ↦
      if o.runs.lookup id = c.orchestrator.runs.lookup id then some { c with orchestrator := o }
      else none
  | .telemetry event => (c.orchestrator.attempt id).map fun a ↦
      c.call 1 (.ingest { event with benchmarkRunId := a.run.runId })
  | .foreign event => if event.benchmarkRunId = id then none else some (c.call 0 (.ingest event))
  | .flushTps => some (c.call 0 .flushTps)

/-! ## The invariant -/

/-- The scorer has served all calls, whatever attempt they belong to. -/
structure Campaign.Inv (id : String) (c : Campaign) : Prop where
  named : RunsNamed c.orchestrator
  scorer : c.scorer = Runs.replay (c.earlier ++ c.current)
  earlierEvents : c.earlier.countP (·.Ingests id) = c.earlierEvents
  currentEvents : c.current.countP (·.Ingests id) = c.currentEvents

theorem Campaign.Inv.call {id : String} {c : Campaign} (h : c.Inv id) {own : ℕ}
    {call : ScorerCall} (hown : (if call.Ingests id then 1 else 0) = own) :
    (c.call own call).Inv id where
  named := h.named
  scorer := by
    rw [Campaign.call, h.scorer, ← List.append_assoc, Runs.replay_concat]
  earlierEvents := h.earlierEvents
  currentEvents := by
    rw [Campaign.call, List.countP_append, List.countP_singleton, h.currentEvents, ← hown]
    simp

theorem Campaign.Inv.step {cfg : Orchestrator.Config} {id : String} {c c' : Campaign}
    {i : CampaignEvent} (h : c.Inv id) (hstep : c.step cfg id i = some c') : c'.Inv id := by
  cases i with
  | start uuid now endpointUrl =>
    simp only [Campaign.step] at hstep
    split at hstep
    · simp at hstep
    · rename_i o hstart
      obtain rfl := Option.some_inj.mp hstep
      refine ⟨runsNamed_startBenchmark h.named hstart, ?_, ?_, rfl⟩
      · rw [List.append_nil]
        exact h.scorer
      · rw [List.countP_append, h.earlierEvents, h.currentEvents]
  | orchestrator e =>
    obtain ⟨o, ho, hif⟩ := Option.bind_eq_some_iff.mp hstep
    obtain ⟨-, hc'⟩ := Option.ite_none_right_eq_some.mp hif
    obtain rfl := Option.some_inj.mp hc'
    exact ⟨runsNamed_step h.named ho, h.scorer, h.earlierEvents, h.currentEvents⟩
  | telemetry event =>
    obtain ⟨a, ha, rfl⟩ := Option.map_eq_some_iff.mp hstep
    obtain ⟨k, hk, ha⟩ := Option.bind_eq_some_iff.mp ha
    have hid : a.run.runId = id := h.named.2 id k a hk ha
    exact h.call (if_pos hid)
  | foreign event =>
    obtain ⟨hne, hc'⟩ := Option.ite_none_left_eq_some.mp hstep
    obtain rfl := Option.some_inj.mp hc'
    exact h.call (if_neg hne)
  | flushTps =>
    obtain rfl := Option.some_inj.mp hstep
    exact h.call (if_neg (ScorerCall.not_ingests_flushTps id))

/-! ## The score of an attempt -/

/-- Calls that bring in no event of a run leave no trace in its score, and others do. -/
theorem finalizeRun_append_iff (earlier current : List ScorerCall) (id teamId : String) :
    (Runs.replay (earlier ++ current)).finalizeRun id teamId =
        (Runs.replay current).finalizeRun id teamId ↔
      earlier.countP (·.Ingests id) = 0 := by
  constructor
  · intro heq
    have htotal : ∀ calls, (((Runs.replay calls).finalizeRun id teamId).map
        FinalScore.totalOrders).getD 0 = calls.countP (·.Ingests id) := fun calls ↦ by
      rw [← Runs.replay_totalOrders, Runs.finalizeRun, Option.map_map]
      rfl
    have hcount := htotal (earlier ++ current)
    rw [heq, htotal, List.countP_append] at hcount
    omega
  · intro hzero
    have hnone : Runs.replay earlier id = Runs.replay [] id :=
      Runs.replay_eq_none fun call hcall ↦ by simpa using List.countP_eq_zero.mp hzero call hcall
    rw [Runs.finalizeRun, Runs.finalizeRun, Runs.replay_append, Runs.foldl_congr hnone,
      ← Runs.replay_append, List.nil_append]

/-- **Whose orders a score counts.** At any moment, and so at the end of each attempt, the score of
the submission is that of a fresh scorer fed with the latest attempt alone, if and only if the
attempts before it have delivered no event. -/
theorem attempt_score_iff {cfg : Orchestrator.Config} {id teamId : String}
    {is : List CampaignEvent} {c : Campaign}
    (h : exec (Campaign.step cfg id) .initial is = some c) :
    c.scorer.finalizeRun id teamId = (Runs.replay c.current).finalizeRun id teamId ↔
      c.earlierEvents = 0 := by
  have hinv : c.Inv id := exec_invariant (fun _ _ _ hc ↦ hc.step)
    ⟨runsNamed_initial, rfl, rfl, rfl⟩ h
  rw [hinv.scorer, ← hinv.earlierEvents]
  exact finalizeRun_append_iff c.earlier c.current id teamId

/-- One order that failed, a stop, a second attempt with one order that succeeded, and a stop. -/
def twoAttempts : List CampaignEvent :=
  [.start "" "" "u", .telemetry ⟨"", "b", "", "limit", "S", 0, 0, 0, false, "e"⟩, .flushTps,
    .orchestrator (.stop "s" ""), .start "" "" "u",
    .telemetry ⟨"", "b", "", "limit", "S", 0, 0, 0, true, ""⟩, .flushTps,
    .orchestrator (.stop "s" "")]

theorem attempt_score_twoAttempts :
    ∃ c, exec (Campaign.step ⟨5, ["AAPL"]⟩ "s") .initial twoAttempts = some c ∧
      (c.scorer.finalizeRun "s" "t" = (Runs.replay c.current).finalizeRun "s" "t" ↔
        c.earlierEvents = 0) := by
  obtain ⟨c, hc⟩ := Option.isSome_iff_exists.mp (show (exec
    (Campaign.step ⟨5, ["AAPL"]⟩ "s") .initial twoAttempts).isSome = true by decide +kernel)
  exact ⟨c, hc, attempt_score_iff hc⟩

/-- The failed order of the first attempt halves the correctness of the second. -/
theorem second_attempt_contaminated :
    ∃ c, exec (Campaign.step ⟨5, ["AAPL"]⟩ "s") .initial twoAttempts = some c ∧
      (∃ a, c.orchestrator.attempt "s" = some a ∧ a.run.status.Terminal) ∧
      (c.scorer.finalizeRun "s" "t").map (·.correctness) = some (1 / 2) ∧
      ((Runs.replay c.current).finalizeRun "s" "t").map (·.correctness) = some 1 ∧
      c.scorer.finalizeRun "s" "t" ≠ (Runs.replay c.current).finalizeRun "s" "t" := by
  have hrun : ((exec (Campaign.step ⟨5, ["AAPL"]⟩ "s") .initial twoAttempts).any fun c ↦
      (c.orchestrator.attempt "s").any (fun a ↦ decide a.run.status.Terminal) &&
      decide ((c.scorer.finalizeRun "s" "t").map (·.correctness) = some (1 / 2)) &&
      decide (((Runs.replay c.current).finalizeRun "s" "t").map (·.correctness) = some 1))
      = true := by decide +kernel
  obtain ⟨c, hc, hall⟩ := (Option.any_eq_true _ _).mp hrun
  simp only [Bool.and_eq_true, decide_eq_true_eq] at hall
  obtain ⟨⟨hended, hactual⟩, hfresh⟩ := hall
  obtain ⟨a, ha, hterminal⟩ := (Option.any_eq_true _ _).mp hended
  refine ⟨c, hc, ⟨a, ha, of_decide_eq_true hterminal⟩, hactual, hfresh, fun heq ↦ ?_⟩
  rw [heq, hfresh] at hactual
  norm_num at hactual

end BenchmarkPlatform.Scoring
