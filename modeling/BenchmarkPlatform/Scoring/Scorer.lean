import BenchmarkPlatform.Scoring.Histogram

/-!
# Run metrics and scores

What the scoring engine keeps of a run, and what it computes from it: `Ingest` counts an event,
`flush_tps` closes a window of one second, `FinalizeRun` makes the score. The functions here work on
one `RunMetrics`; who calls them, on which object and in what order, is the subject of the modules
that follow. Times are not kept: they are used for `elapsed_seconds` only. Ratios are exact.
-/

namespace BenchmarkPlatform.Scoring

structure TelemetryEvent where
  benchmarkRunId : String
  botId : String
  orderId : String
  orderType : String
  symbol : String
  sentAtNs : ℤ
  ackedAtNs : ℤ
  latencyNs : ℤ
  success : Bool
  errorCode : String
  deriving DecidableEq

@[ext]
structure RunMetrics where
  runId : String
  histogram : Histogram
  tpsWindow : List ℕ
  currentTps : ℕ
  maxTps : ℕ
  totalOrders : ℕ
  successfulOrders : ℕ
  failedOrders : ℕ

def RunMetrics.new (runId : String) : RunMetrics := ⟨runId, .empty, [], 0, 0, 0, 0, 0⟩

/-- The critical section of `Ingest`. -/
def RunMetrics.ingest (event : TelemetryEvent) (m : RunMetrics) : RunMetrics where
  runId := m.runId
  histogram := if event.latencyNs > 0 then m.histogram.recordValue event.latencyNs else m.histogram
  tpsWindow := m.tpsWindow
  currentTps := m.currentTps + 1
  maxTps := m.maxTps
  totalOrders := m.totalOrders + 1
  successfulOrders := if event.success then m.successfulOrders + 1 else m.successfulOrders
  failedOrders := if event.success then m.failedOrders else m.failedOrders + 1

/-- `push_back`, and `erase` of the first element if there are more than sixty. -/
def pushWindow (window : List ℕ) (tps : ℕ) : List ℕ :=
  if 60 < (window ++ [tps]).length then (window ++ [tps]).tail else window ++ [tps]

/-- The critical section of `flush_tps`. -/
def RunMetrics.flushTps (m : RunMetrics) : RunMetrics :=
  { m with
    tpsWindow := pushWindow m.tpsWindow m.currentTps
    maxTps := if m.currentTps > m.maxTps then m.currentTps else m.maxTps
    currentTps := 0 }

structure FinalScore where
  runId : String
  teamId : String
  compositeScore : ℚ
  latencyScore : ℚ
  throughputScore : ℚ
  correctnessScore : ℚ
  latencyP50Us : ℤ
  latencyP90Us : ℤ
  latencyP99Us : ℤ
  maxTps : ℕ
  correctness : ℚ
  totalOrders : ℕ
  successfulOrders : ℕ
  deriving DecidableEq

/-- A percentile in microseconds; nothing is recorded of an empty histogram. -/
def RunMetrics.latencyUs (m : RunMetrics) (percentile : ℚ) : ℤ :=
  if m.histogram.totalCount > 0 then (m.histogram.valueAtPercentile percentile).tdiv 1000 else 0

def RunMetrics.correctness (m : RunMetrics) : ℚ :=
  if m.totalOrders > 0 then m.successfulOrders / m.totalOrders else 0

def latencyScore (latencyP99Us : ℤ) : ℚ :=
  let latencyMs : ℚ := latencyP99Us / 1000
  min 1 (100 / if latencyMs < 1 then 1 else latencyMs)

def throughputScore (maxTps : ℕ) : ℚ := min 1 (maxTps / 10000)

/-- The score `FinalizeRun` makes of the metrics of a run. -/
def RunMetrics.finalScore (m : RunMetrics) (runId teamId : String) : FinalScore where
  runId := runId
  teamId := teamId
  compositeScore := (1 / 2 * latencyScore (m.latencyUs 99) + 1 / 2 * throughputScore m.maxTps)
    * m.correctness
  latencyScore := latencyScore (m.latencyUs 99)
  throughputScore := throughputScore m.maxTps
  correctnessScore := m.correctness
  latencyP50Us := m.latencyUs 50
  latencyP90Us := m.latencyUs 90
  latencyP99Us := m.latencyUs 99
  maxTps := m.maxTps
  correctness := m.correctness
  totalOrders := m.totalOrders
  successfulOrders := m.successfulOrders

/-! ## Calls one after the other

Where calls do not overlap, the scorer is a map from run ids to metrics. -/

inductive ScorerCall where
  | ingest (event : TelemetryEvent)
  | flushTps

/-- The map `runs`. -/
abbrev Runs := String → Option RunMetrics

def Runs.apply (runs : Runs) : ScorerCall → Runs
  | .ingest event => Function.update runs event.benchmarkRunId
      (some (((runs event.benchmarkRunId).getD (.new event.benchmarkRunId)).ingest event))
  | .flushTps => fun id ↦ (runs id).map RunMetrics.flushTps

/-- A fresh scorer after these calls. -/
def Runs.replay (calls : List ScorerCall) : Runs := calls.foldl Runs.apply fun _ ↦ none

def Runs.finalizeRun (runs : Runs) (runId teamId : String) : Option FinalScore :=
  (runs runId).map fun m ↦ m.finalScore runId teamId

/-- The call ingests an event of the run. -/
def ScorerCall.Ingests (id : String) : ScorerCall → Prop
  | .ingest event => event.benchmarkRunId = id
  | .flushTps => False

instance (id : String) : DecidablePred (ScorerCall.Ingests id)
  | .ingest event => inferInstanceAs (Decidable (event.benchmarkRunId = id))
  | .flushTps => inferInstanceAs (Decidable False)

@[simp] theorem ScorerCall.ingests_ingest (id : String) (event : TelemetryEvent) :
    (ingest event).Ingests id ↔ event.benchmarkRunId = id := Iff.rfl

@[simp] theorem ScorerCall.not_ingests_flushTps (id : String) : ¬flushTps.Ingests id := not_false

theorem Runs.replay_append (calls calls' : List ScorerCall) :
    replay (calls ++ calls') = calls'.foldl apply (replay calls) := List.foldl_append

theorem Runs.replay_concat (calls : List ScorerCall) (call : ScorerCall) :
    replay (calls ++ [call]) = (replay calls).apply call := replay_append _ _

/-- What is known of a run after a call depends on what was known of that run. -/
theorem Runs.apply_congr {runs runs' : Runs} {id : String} (h : runs id = runs' id)
    (call : ScorerCall) : runs.apply call id = runs'.apply call id := by
  cases call with
  | ingest event =>
    rcases eq_or_ne id event.benchmarkRunId with rfl | hne
    · simp [apply, h]
    · simp [apply, Function.update_of_ne hne, h]
  | flushTps => simp [apply, h]

theorem Runs.foldl_congr {runs runs' : Runs} {id : String} (h : runs id = runs' id)
    (calls : List ScorerCall) : calls.foldl apply runs id = calls.foldl apply runs' id := by
  induction calls generalizing runs runs' with
  | nil => exact h
  | cons call calls ih => exact ih (apply_congr h call)

/-- Windows are closed of known runs only. -/
theorem Runs.replay_eq_none {calls : List ScorerCall} {id : String}
    (h : ∀ call ∈ calls, ¬call.Ingests id) : replay calls id = none := by
  induction calls using List.reverseRecOn with
  | nil => rfl
  | append_singleton calls call ih =>
    have hnone := ih fun c hc ↦ h c (List.mem_append_left _ hc)
    have hcall : ¬call.Ingests id := h call (by simp)
    rw [replay_concat]
    cases call with
    | ingest event =>
      have hne : id ≠ event.benchmarkRunId := fun heq ↦ hcall heq.symm
      rw [apply, Function.update_of_ne hne, hnone]
    | flushTps =>
      have hmap : (replay calls id).map RunMetrics.flushTps = none := by rw [hnone, Option.map_none]
      exact hmap

/-- The call ingests an event of the run that meets a condition. -/
def ScorerCall.Counts (id : String) (p : TelemetryEvent → Bool) : ScorerCall → Bool
  | .ingest event => event.benchmarkRunId = id && p event
  | .flushTps => false

/-- A counter that `Ingest` increments for certain events counts those of the run. -/
theorem Runs.replay_count {f : RunMetrics → ℕ} {p : TelemetryEvent → Bool}
    (hnew : ∀ id, f (.new id) = 0) (hflush : ∀ m, f (RunMetrics.flushTps m) = f m)
    (hingest : ∀ event m, f (RunMetrics.ingest event m) = f m + if p event then 1 else 0)
    (calls : List ScorerCall) (id : String) :
    ((replay calls id).map f).getD 0 = calls.countP (·.Counts id p) := by
  induction calls using List.reverseRecOn with
  | nil => rfl
  | append_singleton calls call ih =>
    rw [replay_concat, List.countP_append, ← ih, List.countP_singleton]
    cases call with
    | ingest event =>
      rcases eq_or_ne id event.benchmarkRunId with rfl | hne
      · cases h : replay calls event.benchmarkRunId <;>
          simp [apply, h, hingest, hnew, ScorerCall.Counts]
      · simp [apply, Function.update_of_ne hne, hne.symm, ScorerCall.Counts]
    | flushTps =>
      cases h : replay calls id <;> simp [apply, h, hflush, ScorerCall.Counts]

/-- The total counts the events of the run. -/
theorem Runs.replay_totalOrders (calls : List ScorerCall) (id : String) :
    ((replay calls id).map RunMetrics.totalOrders).getD 0 = calls.countP (·.Ingests id) := by
  have hcounts : ∀ call : ScorerCall, call.Counts id (fun _ ↦ true) = decide (call.Ingests id) := by
    rintro (event | _) <;> simp [ScorerCall.Counts]
  rw [replay_count (fun _ ↦ rfl) (fun _ ↦ rfl) (p := fun _ ↦ true) fun _ _ ↦ rfl]
  simp only [hcounts]

theorem Runs.replay_successfulOrders (calls : List ScorerCall) (id : String) :
    ((replay calls id).map RunMetrics.successfulOrders).getD 0 =
      calls.countP (·.Counts id (·.success)) :=
  replay_count (fun _ ↦ rfl) (fun _ ↦ rfl) (fun event m ↦ by
    cases h : event.success <;> simp [RunMetrics.ingest, h]) calls id

/-- The events of a run are its successes and its failures. -/
theorem ScorerCall.countP_outcomes (calls : List ScorerCall) (id : String) :
    calls.countP (·.Ingests id) =
      calls.countP (·.Counts id (·.success)) + calls.countP (·.Counts id (!·.success)) := by
  induction calls with
  | nil => rfl
  | cons call calls ih =>
    rw [List.countP_cons, List.countP_cons, List.countP_cons, ih]
    cases call with
    | flushTps => simp [Counts]
    | ingest event =>
      by_cases hid : event.benchmarkRunId = id <;> cases hsuccess : event.success <;>
        simp [Counts, hid, hsuccess] <;> omega

/-- **Correctness 1** means that no event of the run was a failure. -/
theorem Runs.correctness_eq_one_iff {calls : List ScorerCall} {id teamId : String}
    {score : FinalScore} (h : (replay calls).finalizeRun id teamId = some score) :
    score.correctness = 1 ↔
      ∀ event, .ingest event ∈ calls → event.benchmarkRunId = id → event.success = true := by
  obtain ⟨m, hm, rfl⟩ := Option.map_eq_some_iff.mp h
  have htotal := replay_totalOrders calls id
  have hsuccessful := replay_successfulOrders calls id
  rw [hm, Option.map_some, Option.getD_some] at htotal hsuccessful
  have hpos : 0 < m.totalOrders := by
    rw [htotal, List.countP_pos_iff]
    by_contra hnone
    push Not at hnone
    rw [replay_eq_none fun call hcall ↦ by simpa using hnone call hcall] at hm
    simp at hm
  have hcorrectness : m.correctness = 1 ↔ m.successfulOrders = m.totalOrders := by
    rw [RunMetrics.correctness, if_pos hpos, div_eq_one_iff_eq (by positivity), Nat.cast_inj]
  rw [RunMetrics.finalScore, hcorrectness, hsuccessful, htotal, ScorerCall.countP_outcomes,
    left_eq_add, List.countP_eq_zero]
  constructor
  · intro hnone event hevent hid
    simpa [ScorerCall.Counts, hid] using hnone (.ingest event) hevent
  · rintro hall (event | _) hcall
    · simpa [ScorerCall.Counts] using fun hid ↦ hall event hcall hid
    · simp [ScorerCall.Counts]

end BenchmarkPlatform.Scoring
