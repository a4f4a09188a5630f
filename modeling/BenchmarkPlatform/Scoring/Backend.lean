import BenchmarkPlatform.Leaderboard.Board
import BenchmarkPlatform.Scoring.Ledger
import BenchmarkPlatform.Scoring.Summary

/-!
# The scorer under load

Queries reach the scorer while telemetry is ingested and windows are closed. `get_snapshot`,
`get_histogram` and `FinalizeRun` look the run up under the shared lock and read its metrics under
the lock of the run; `FinalizeRun` keeps that lock while it writes to Redis. DELETE of a team and
the readers of the leaderboard use Redis at the same time.

All that happens to a run happens under its lock, so it forms one sequence. Every answer is the one
that a scorer without concurrency gives after the calls of that sequence
(`Section.Right`), although the metrics themselves can differ from those of such a scorer:
a window may be closed between the moment at which a run is made and its first event.
-/

namespace BenchmarkPlatform.Scoring

open Lib Leaderboard

/-! ## Queries and answers -/

inductive Query where
  | getSnapshot
  | getHistogram
  | finalizeRun (teamId : String)
  deriving DecidableEq

inductive Answer where
  | snapshot (snap : MetricsSnapshot)
  | histogram (data : HistogramData)
  | score (score : FinalScore)
  deriving DecidableEq

/-- What comes from the standard library and from the JSON library. -/
structure Libraries where
  sqrt : ℚ → ℚ
  /-- `std::to_string` of a double. -/
  toString : ℚ → String
  /-- `dump` of an array of buckets. -/
  dump : List HistogramBucket → String
  json : JsonNumbers

variable {lib : Libraries}

/-- What a query reads of the metrics of its run. -/
def Query.answer (lib : Libraries) (runId : String) (m : RunMetrics) : Query → Answer
  | .getSnapshot => .snapshot (m.snapshot runId)
  | .getHistogram => .histogram (m.histogram.data lib.sqrt)
  | .finalizeRun teamId => .score (m.finalScore runId teamId)

/-- The answer of a scorer that is asked while nothing else is going on. -/
def Runs.answer (lib : Libraries) (runs : Runs) (runId : String) (q : Query) : Option Answer :=
  (runs runId).map fun m ↦ q.answer lib runId m

/-- The fields that `FinalizeRun` writes into the hash of the team. -/
def RunMetrics.hashVals (lib : Libraries) (m : RunMetrics) (score : FinalScore) :
    List (String × String) :=
  [("composite", lib.toString score.compositeScore),
    ("latency_p50", toString score.latencyP50Us),
    ("latency_p90", toString score.latencyP90Us),
    ("latency_p99", toString score.latencyP99Us),
    ("max_tps", toString score.maxTps),
    ("current_tps", toString (m.tpsWindow.getLastD 0)),
    ("correctness", lib.toString score.correctness),
    ("histogram",
      if m.histogram.totalCount > 0 then lib.dump (m.histogram.data lib.sqrt).buckets else "[]"),
    ("run_id", score.runId)]

/-! ## The threads -/

/-- The scorer and Redis. -/
structure Backend where
  scorer : Scorer
  /-- The addresses of the metrics whose lock a `FinalizeRun` holds. -/
  locked : List ℕ
  store : Store
  /-- The messages on `leaderboard_updates`. -/
  published : List String

def Backend.initial : Backend := ⟨.initial, [], .empty, []⟩

inductive BackendCall where
  | scorer (call : ScorerCall)
  | query (q : Query) (runId : String)
  | deleteTeam (name : String)
  | fetchLeaderboard

inductive BackendPc where
  | scorer (pc : ScorerPc)
  /-- A query: the lookup under the shared lock. -/
  | find (q : Query) (runId : String)
  | read (q : Query) (runId : String) (m : ℕ)
  /-- `FinalizeRun`: its pipeline, under the lock of the metrics. -/
  | zadd (m : ℕ) (score : FinalScore) (hashVals : List (String × String))
  | hmset (m : ℕ) (teamId : String) (hashVals : List (String × String))
  | publish (m : ℕ) (teamId : String)
  /-- DELETE of a team, from the commands to Redis on. -/
  | zrem (name : String)
  | del (name : String)
  | refresh
  | fetch (f : Fetch)
  | fetched (entries : List LeaderboardEntry)
  | done

def BackendCall.entry : BackendCall → BackendPc
  | .scorer call => .scorer call.entry
  | .query q runId => .find q runId
  | .deleteTeam name => .zrem name
  | .fetchLeaderboard => .fetch .zrevrange

/-- What a step reads from outside. -/
structure BackendEnv where
  /-- The order in which the hash map lists its keys. -/
  order : List String
  /-- Redis throws. -/
  redisError : Bool

/-- The metrics whose lock a section of the scorer takes. -/
def ScorerPc.locks : ScorerPc → Option ℕ
  | .update _ m => some m
  | .flushUpdate m _ => some m
  | _ => none

namespace Backend

/-- `FinalizeRun` returns, and its lock is released. -/
def unlock (s : Backend) (m : ℕ) : Backend := { s with locked := s.locked.erase m }

/-- The rest of a query, under the lock of the metrics. -/
def read (lib : Libraries) (s : Backend) (runId : String) (m : ℕ) (r : RunMetrics) :
    Query → Backend × BackendPc
  | .finalizeRun teamId =>
    if teamId = "" then (s, .done)
    else ({ s with locked := m :: s.locked },
      .zadd m (r.finalScore runId teamId) (r.hashVals lib (r.finalScore runId teamId)))
  | _ => (s, .done)

/-- The next step of a thread. -/
def advance (lib : Libraries) (s : Backend) (env : BackendEnv) :
    BackendPc → Option (Backend × BackendPc)
  | .scorer pc =>
    if ∀ m ∈ pc.locks, m ∉ s.locked then
      (s.scorer.advance env.order pc).map fun r ↦ ({ s with scorer := r.1 }, .scorer r.2)
    else none
  | .find q runId =>
    match s.scorer.runs.lookup runId with
    | none => some (s, .done)
    | some m => some (s, .read q runId m)
  | .read q runId m =>
    if m ∈ s.locked then none
    else (s.scorer.objects[m]?).map fun r ↦ s.read lib runId m r q
  | .zadd m score hashVals =>
    if env.redisError then some (s.unlock m, .done)
    else some ({ s with store := s.store.run (.zadd score.teamId score.compositeScore) },
      .hmset m score.teamId hashVals)
  | .hmset m teamId hashVals =>
    if env.redisError then some (s.unlock m, .done)
    else some ({ s with store := s.store.run (.hmset teamId hashVals) }, .publish m teamId)
  | .publish m teamId =>
    if env.redisError then some (s.unlock m, .done)
    else some ({ s.unlock m with published := s.published ++ [teamId] }, .done)
  | .zrem name =>
    if env.redisError then some (s, .done)
    else some ({ s with store := s.store.run (.zrem name) }, .del name)
  | .del name =>
    if env.redisError then some (s, .done)
    else some ({ s with store := s.store.run (.del name) }, .refresh)
  | .refresh =>
    if env.redisError then some (s, .done)
    else some ({ s with published := s.published ++ ["refresh"] }, .done)
  | .fetch f =>
    if env.redisError then some (s, .done)
    else
      match f.advance lib.json s.store with
      | .inl f' => some (s, .fetch f')
      | .inr entries => some (s, .fetched entries)
  | .fetched _ => none
  | .done => none

end Backend

/-- The backend and the calls that are on their way. -/
abbrev Service := Pool Backend BackendPc

abbrev ServiceEvent := PoolEvent BackendCall BackendEnv

def Service.initial : Service := ⟨.initial, []⟩

def Service.step (lib : Libraries) (s : Service) : ServiceEvent → Option Service :=
  s.next BackendCall.entry (Backend.advance lib)

/-! ## What happens to a run -/

/-- A section under the lock of a run, or the answer that there is no such run. -/
inductive Section where
  | ingested (event : TelemetryEvent)
  | flushed (runId : String)
  | answered (runId : String) (q : Query) (answer : Option Answer)
  deriving DecidableEq

/-- The call that the section is, to the run. -/
def Section.call (id : String) : Section → Option ScorerCall
  | .ingested event => if event.benchmarkRunId = id then some (.ingest event) else none
  | .flushed runId => if runId = id then some .flushTps else none
  | .answered _ _ _ => none

/-- The events and windows of a run, in order. -/
def callsOf (id : String) (log : List Section) : List ScorerCall := log.filterMap (Section.call id)

/-- What the next step of a thread does to a run. -/
def Backend.sections (lib : Libraries) (s : Backend) : BackendPc → List Section
  | .scorer (.update event _) => [.ingested event]
  | .scorer (.flushUpdate m _) => (s.scorer.objects[m]?).elim [] fun r ↦ [.flushed r.runId]
  | .find q runId => if s.scorer.runs.lookup runId = none then [.answered runId q none] else []
  | .read q runId m =>
    (s.scorer.objects[m]?).elim [] fun r ↦ [.answered runId q (some (q.answer lib runId r))]
  | _ => []

def Service.sections (lib : Libraries) (s : Service) : ServiceEvent → List Section
  | .start _ => []
  | .run i _ => (s.threads[i]?).elim [] (s.shared.sections lib)

/-- All that has happened to any run. -/
def Service.log (lib : Libraries) (es : List ServiceEvent) : List Section :=
  emitted (Service.step lib) (Service.sections lib) .initial es

/-- The answer is that of a scorer without concurrency after the same events and windows, or the run
has been made and none of its events has been counted. -/
def Section.Right (lib : Libraries) (past : List Section) : Section → Prop
  | .answered runId q answer =>
    answer = (Runs.replay (callsOf runId past)).answer lib runId q ∨
      Runs.replay (callsOf runId past) runId = none ∧
        answer = some (q.answer lib runId (.new runId))
  | _ => True

/-! ## Metrics that answer alike -/

/-- The metrics agree on everything but windows without orders before the first event. -/
structure RunMetrics.Like (m m' : RunMetrics) : Prop where
  runId : m.runId = m'.runId
  histogram : m.histogram = m'.histogram
  currentTps : m.currentTps = m'.currentTps
  maxTps : m.maxTps = m'.maxTps
  totalOrders : m.totalOrders = m'.totalOrders
  successfulOrders : m.successfulOrders = m'.successfulOrders
  failedOrders : m.failedOrders = m'.failedOrders
  lastTps : m.tpsWindow.getLastD 0 = m'.tpsWindow.getLastD 0

section

variable {m m' : RunMetrics}

theorem RunMetrics.Like.refl (m : RunMetrics) : m.Like m := ⟨rfl, rfl, rfl, rfl, rfl, rfl, rfl, rfl⟩

theorem RunMetrics.Like.correctness (h : m.Like m') : m.correctness = m'.correctness := by
  rw [RunMetrics.correctness, h.totalOrders, h.successfulOrders, RunMetrics.correctness]

theorem RunMetrics.Like.latencyUs (h : m.Like m') (percentile : ℚ) :
    m.latencyUs percentile = m'.latencyUs percentile := by
  rw [RunMetrics.latencyUs, h.histogram, RunMetrics.latencyUs]

theorem RunMetrics.Like.answer (h : m.Like m') (lib : Libraries) (runId : String) (q : Query) :
    q.answer lib runId m = q.answer lib runId m' := by
  cases q with
  | getSnapshot =>
    simp only [Query.answer, RunMetrics.snapshot, h.histogram, h.maxTps, h.totalOrders,
      h.successfulOrders, h.failedOrders, h.lastTps, h.correctness, h.latencyUs]
  | getHistogram => rw [Query.answer, h.histogram, Query.answer]
  | finalizeRun teamId =>
    simp only [Query.answer, RunMetrics.finalScore, h.maxTps, h.totalOrders, h.successfulOrders,
      h.correctness, h.latencyUs]

theorem RunMetrics.Like.ingest (h : m.Like m') (event : TelemetryEvent) :
    (m.ingest event).Like (m'.ingest event) := by
  simp only [RunMetrics.ingest, h.runId, h.histogram, h.currentTps, h.maxTps, h.totalOrders,
    h.successfulOrders, h.failedOrders]
  exact ⟨rfl, rfl, rfl, rfl, rfl, rfl, rfl, h.lastTps⟩

/-- The last window is the one that was closed last. -/
theorem getLastD_pushWindow (window : List ℕ) (tps : ℕ) :
    (pushWindow window tps).getLastD 0 = tps := by
  rw [pushWindow]
  split_ifs with hlong
  · cases window with
    | nil => simp at hlong
    | cons w window => simp
  · simp

theorem RunMetrics.Like.flushTps (h : m.Like m') : m.flushTps.Like m'.flushTps where
  runId := h.runId
  histogram := h.histogram
  currentTps := rfl
  maxTps := by
    simp only [RunMetrics.flushTps, h.currentTps, h.maxTps]
  totalOrders := h.totalOrders
  successfulOrders := h.successfulOrders
  failedOrders := h.failedOrders
  lastTps := by
    simp only [RunMetrics.flushTps, getLastD_pushWindow, h.currentTps]

/-- A window that is closed before the first event makes no difference. -/
theorem RunMetrics.Like.flushTps_new {id : String} (h : m.Like (.new id)) :
    m.flushTps.Like (.new id) where
  runId := h.runId
  histogram := h.histogram
  currentTps := rfl
  maxTps := by
    simp only [RunMetrics.flushTps, h.currentTps, h.maxTps]
    rfl
  totalOrders := h.totalOrders
  successfulOrders := h.successfulOrders
  failedOrders := h.failedOrders
  lastTps := by
    simp only [RunMetrics.flushTps, getLastD_pushWindow, h.currentTps]
    rfl

end

/-! ## The sequence of a run -/

theorem Runs.apply_flushTps (runs : Runs) (id : String) :
    runs.apply .flushTps id = (runs id).map RunMetrics.flushTps := rfl

/-- The metrics that a scorer without concurrency has of the run. -/
def metricsAfter (id : String) (log : List Section) : RunMetrics :=
  (Runs.replay (callsOf id log) id).getD (.new id)

section

variable {log : List Section} {id : String}

theorem callsOf_append (log log' : List Section) :
    callsOf id (log ++ log') = callsOf id log ++ callsOf id log' := List.filterMap_append

theorem callsOf_concat_of_call {e : Section} (h : e.call id = none) :
    callsOf id (log ++ [e]) = callsOf id log := by
  rw [callsOf_append, callsOf, callsOf, List.filterMap_cons_none h, List.filterMap_nil,
    List.append_nil]

theorem replay_callsOf_concat {e : Section} {call : ScorerCall} (h : e.call id = some call) :
    Runs.replay (callsOf id (log ++ [e])) = (Runs.replay (callsOf id log)).apply call := by
  rw [callsOf_append, callsOf, callsOf, List.filterMap_cons_some h, List.filterMap_nil,
    Runs.replay_concat]

theorem metricsAfter_ingested {event : TelemetryEvent} (h : event.benchmarkRunId = id) :
    metricsAfter id (log ++ [.ingested event]) = (metricsAfter id log).ingest event := by
  have hcall : (Section.ingested event).call id = some (.ingest event) := if_pos h
  rw [metricsAfter, replay_callsOf_concat hcall, Runs.apply, h, Function.update_self,
    Option.getD_some, metricsAfter]

theorem RunMetrics.Like.flushed {m : RunMetrics} (h : m.Like (metricsAfter id log)) :
    m.flushTps.Like (metricsAfter id (log ++ [.flushed id])) := by
  have hcall : (Section.flushed id).call id = some .flushTps := if_pos rfl
  rw [metricsAfter, replay_callsOf_concat hcall, Runs.apply_flushTps]
  rw [metricsAfter] at h
  cases hreplay : Runs.replay (callsOf id log) id with
  | none =>
    rw [hreplay] at h
    exact h.flushTps_new
  | some m' =>
    rw [hreplay] at h
    exact h.flushTps

end

/-- The metrics of a run are those after its sequence, and a run without metrics has none. -/
structure Backend.Inv (log : List Section) (s : Backend) : Prop where
  scorer : s.scorer.Inv
  like : ∀ (m : ℕ) r, s.scorer.objects[m]? = some r → r.Like (metricsAfter r.runId log)
  unused : ∀ id, s.scorer.runs.lookup id = none → callsOf id log = []

/-- What a thread remembers of the heap is true of it. -/
def BackendPc.Ok (s : Scorer) : BackendPc → Prop
  | .scorer pc => pc.Ok s
  | .read _ runId m => s.runs.lookup runId = some m
  | _ => True

theorem BackendPc.Ok.mono {s t : Scorer} (hgrows : s.Grows t) {pc : BackendPc} (h : pc.Ok s) :
    pc.Ok t := by
  cases pc with
  | scorer pc => exact ScorerPc.Ok.mono hgrows h
  | read q runId m => exact hgrows runId m h
  | _ => trivial

section

variable {log : List Section} {s s' : Backend} {env : BackendEnv} {pc pc' : BackendPc}

theorem Backend.inv_initial : Backend.initial.Inv [] where
  scorer := Scorer.inv_initial
  like m r hr := by simp [initial, Scorer.initial] at hr
  unused id _ := rfl

/-- The metrics at an address are replaced by ones of the same run. -/
theorem Scorer.Inv.forall_set {s : Scorer} (hs : s.Inv) {m : ℕ} {r r' : RunMetrics}
    (hr : s.objects[m]? = some r) {P : RunMetrics → Prop} (hself : P r')
    (hother : ∀ (j : ℕ) t, s.objects[j]? = some t → t.runId ≠ r.runId → P t) :
    ∀ (j : ℕ) t, (s.objects.set m r')[j]? = some t → P t := by
  intro j t ht
  rcases eq_or_ne m j with rfl | hne
  · rw [List.getElem?_set_self (List.getElem?_eq_some_iff.mp hr).1, Option.some_inj] at ht
    exact ht ▸ hself
  · rw [List.getElem?_set_ne hne] at ht
    exact hother j t ht fun hid ↦ hne (hs.unique hr ht hid).symm

/-- **A section of the scorer** does to the metrics of a run what the call it is does to them. -/
theorem Backend.Inv.scorer_advance (lib : Libraries) {order : List String} {pc pc' : ScorerPc}
    {t : Scorer} (hs : s.Inv log) (hpc : pc.Ok s.scorer)
    (h : s.scorer.advance order pc = some (t, pc')) :
    (∀ (m : ℕ) r, t.objects[m]? = some r →
      r.Like (metricsAfter r.runId (log ++ s.sections lib (.scorer pc)))) ∧
    ∀ id, t.runs.lookup id = none → callsOf id (log ++ s.sections lib (.scorer pc)) = [] := by
  have hkeep : s.sections lib (.scorer pc) = [] → t.objects = s.scorer.objects →
      t.runs = s.scorer.runs → (∀ (m : ℕ) r, t.objects[m]? = some r →
        r.Like (metricsAfter r.runId (log ++ s.sections lib (.scorer pc)))) ∧
      ∀ id, t.runs.lookup id = none → callsOf id (log ++ s.sections lib (.scorer pc)) = [] := by
    intro hnil hobjects hruns
    rw [hnil, List.append_nil, hobjects, hruns]
    exact ⟨hs.like, hs.unused⟩
  cases pc with
  | find event =>
    rw [Scorer.advance] at h
    split at h
    all_goals
      obtain ⟨rfl, -⟩ := Prod.mk.inj (Option.some_inj.mp h)
      exact hkeep rfl rfl rfl
  | create event =>
    rw [Scorer.advance] at h
    split at h
    · obtain ⟨rfl, -⟩ := Prod.mk.inj (Option.some_inj.mp h)
      exact hkeep rfl rfl rfl
    · -- the new metrics are those of a run to which nothing has happened
      rename_i hnone
      obtain ⟨rfl, -⟩ := Prod.mk.inj (Option.some_inj.mp h)
      have hnil : s.sections lib (.scorer (.create event)) = [] := rfl
      rw [hnil, List.append_nil]
      refine ⟨fun m r hr ↦ ?_, fun id hid ↦ hs.unused id ?_⟩
      · rcases List.mem_append.mp (List.mem_of_getElem? hr) with hmem | hmem
        · obtain ⟨j, hj⟩ := List.mem_iff_getElem?.mp hmem
          exact hs.like j r hj
        · obtain rfl := List.mem_singleton.mp hmem
          have hcalls : callsOf event.benchmarkRunId log = [] := hs.unused _ hnone
          rw [RunMetrics.new, metricsAfter, hcalls]
          exact RunMetrics.Like.refl _
      · by_contra hsome
        have hne : id ≠ event.benchmarkRunId := by
          rintro rfl
          exact hsome hnone
        rw [Finmap.lookup_insert_of_ne _ hne] at hid
        exact hsome hid
  | update event m =>
    obtain ⟨r, hr, heq⟩ := Option.map_eq_some_iff.mp h
    obtain ⟨rfl, -⟩ := Prod.mk.inj heq
    obtain ⟨r', hr', hid⟩ := (hs.scorer.runs _ m).mp hpc
    obtain rfl := Option.some_inj.mp (hr.symm.trans hr')
    have hsections : s.sections lib (.scorer (.update event m)) = [.ingested event] := rfl
    rw [hsections]
    refine ⟨hs.scorer.forall_set hr ?_ fun j t ht hne ↦ ?_, fun id hnone ↦ ?_⟩
    · have hlike := (hs.like m r hr).ingest event
      rw [← metricsAfter_ingested hid.symm] at hlike
      exact hlike
    · have hcall : (Section.ingested event).call t.runId = none :=
        if_neg fun heq ↦ hne (heq.symm.trans hid.symm)
      rw [metricsAfter, callsOf_concat_of_call hcall]
      exact hs.like j t ht
    · have hcall : (Section.ingested event).call id = none := by
        refine if_neg fun heq ↦ ?_
        have hsome : s.scorer.runs.lookup event.benchmarkRunId = some m := hpc
        rw [heq] at hsome
        exact absurd (hsome.symm.trans hnone) (by simp)
      rw [callsOf_concat_of_call hcall]
      exact hs.unused id hnone
  | flushUpdate m runIds =>
    obtain ⟨r, hr, heq⟩ := Option.map_eq_some_iff.mp h
    obtain ⟨rfl, -⟩ := Prod.mk.inj heq
    have hsections : s.sections lib (.scorer (.flushUpdate m runIds)) = [.flushed r.runId] := by
      rw [Backend.sections, hr]
      rfl
    rw [hsections]
    refine ⟨hs.scorer.forall_set hr ?_ fun j t ht hne ↦ ?_, fun id hnone ↦ ?_⟩
    · exact (hs.like m r hr).flushed
    · have hcall : (Section.flushed r.runId).call t.runId = none := if_neg hne.symm
      rw [metricsAfter, callsOf_concat_of_call hcall]
      exact hs.like j t ht
    · have hcall : (Section.flushed r.runId).call id = none := by
        refine if_neg fun heq ↦ ?_
        have hsome := (hs.scorer.runs r.runId m).mpr ⟨r, hr, rfl⟩
        rw [heq] at hsome
        exact absurd (hsome.symm.trans hnone) (by simp)
      rw [callsOf_concat_of_call hcall]
      exact hs.unused id hnone
  | push event =>
    obtain ⟨rfl, -⟩ := Prod.mk.inj (Option.some_inj.mp h)
    exact hkeep rfl rfl rfl
  | collect =>
    rw [Scorer.advance] at h
    split_ifs at h
    obtain ⟨rfl, -⟩ := Prod.mk.inj (Option.some_inj.mp h)
    exact hkeep rfl rfl rfl
  | flushFind runIds =>
    cases runIds with
    | nil =>
      obtain ⟨rfl, -⟩ := Prod.mk.inj (Option.some_inj.mp h)
      exact hkeep rfl rfl rfl
    | cons id runIds =>
      rw [Scorer.advance] at h
      split at h
      all_goals
        obtain ⟨rfl, -⟩ := Prod.mk.inj (Option.some_inj.mp h)
        exact hkeep rfl rfl rfl
  | done => simp [Scorer.advance] at h

/-- A read of the metrics gives the answer of a scorer without concurrency. -/
theorem Backend.Inv.right_read (lib : Libraries) (hs : s.Inv log) {runId : String} {m : ℕ}
    {r : RunMetrics} (hm : s.scorer.runs.lookup runId = some m)
    (hr : s.scorer.objects[m]? = some r) (q : Query) :
    (Section.answered runId q (some (q.answer lib runId r))).Right lib log := by
  obtain ⟨r', hr', rfl⟩ := (hs.scorer.runs _ m).mp hm
  obtain rfl := Option.some_inj.mp (hr.symm.trans hr')
  have hlike := hs.like m r hr
  rw [metricsAfter] at hlike
  rw [Section.Right, Runs.answer]
  cases hreplay : Runs.replay (callsOf r.runId log) r.runId with
  | none =>
    rw [hreplay, Option.getD_none] at hlike
    rw [hlike.answer]
    exact Or.inr ⟨rfl, rfl⟩
  | some m' =>
    rw [hreplay, Option.getD_some] at hlike
    rw [hlike.answer]
    exact Or.inl rfl

/-- An answer changes nothing. -/
theorem Backend.Inv.answered (hs : s.Inv log) (runId : String) (q : Query)
    (answer : Option Answer) : s.Inv (log ++ [.answered runId q answer]) := by
  have hcalls : ∀ id, callsOf id (log ++ [.answered runId q answer]) = callsOf id log :=
    fun id ↦ callsOf_concat_of_call rfl
  refine ⟨hs.scorer, fun m r hr ↦ ?_, fun id hid ↦ ?_⟩
  · rw [metricsAfter, hcalls]
    exact hs.like m r hr
  · rw [hcalls]
    exact hs.unused id hid

/-- **The step lemma.** -/
theorem Backend.Inv.advance (hs : s.Inv log) (hpc : pc.Ok s.scorer)
    (h : s.advance lib env pc = some (s', pc')) :
    s'.Inv (log ++ s.sections lib pc) ∧ pc'.Ok s'.scorer ∧ s.scorer.Grows s'.scorer ∧
      ∀ e ∈ s.sections lib pc, e.Right lib log := by
  have hgrows : s.scorer.Grows s.scorer := fun _ _ hm ↦ hm
  -- the steps that leave the scorer as it is and do nothing to a run
  have hkeep : s.sections lib pc = [] → s'.scorer = s.scorer → pc'.Ok s'.scorer →
      s'.Inv (log ++ s.sections lib pc) ∧ pc'.Ok s'.scorer ∧ s.scorer.Grows s'.scorer ∧
        ∀ e ∈ s.sections lib pc, e.Right lib log := by
    intro hnil hscorer hok
    rw [hnil, List.append_nil]
    refine ⟨⟨?_, ?_, ?_⟩, hok, ?_, fun e he ↦ absurd he List.not_mem_nil⟩
    · rw [hscorer]
      exact hs.scorer
    · rw [hscorer]
      exact hs.like
    · rw [hscorer]
      exact hs.unused
    · rw [hscorer]
      exact hgrows
  cases pc with
  | scorer pc =>
    rw [Backend.advance] at h
    split_ifs at h
    obtain ⟨⟨t, pc''⟩, hadvance, heq⟩ := Option.map_eq_some_iff.mp h
    obtain ⟨rfl, rfl⟩ := Prod.mk.inj heq
    obtain ⟨hinv, hok, hmono⟩ := hs.scorer.advance hpc hadvance
    obtain ⟨hlike, hunused⟩ := hs.scorer_advance lib hpc hadvance
    refine ⟨⟨hinv, hlike, hunused⟩, hok, hmono, fun e he ↦ ?_⟩
    -- what the scorer does is not an answer
    cases pc with
    | update event m =>
      rw [List.mem_singleton.mp he]
      trivial
    | flushUpdate m runIds =>
      cases hr : s.scorer.objects[m]? with
      | none =>
        rw [Backend.sections, hr] at he
        exact absurd he List.not_mem_nil
      | some r =>
        rw [Backend.sections, hr] at he
        rw [List.mem_singleton.mp he]
        trivial
    | _ => exact absurd he List.not_mem_nil
  | find q runId =>
    rw [Backend.advance] at h
    split at h
    · rename_i hnone
      obtain ⟨rfl, rfl⟩ := Prod.mk.inj (Option.some_inj.mp h)
      rw [Backend.sections, if_pos hnone]
      refine ⟨hs.answered runId q none, trivial, hgrows, fun e he ↦ ?_⟩
      rw [List.mem_singleton.mp he]
      refine Or.inl ?_
      rw [hs.unused runId hnone]
      rfl
    · rename_i m hsome
      obtain ⟨rfl, rfl⟩ := Prod.mk.inj (Option.some_inj.mp h)
      refine hkeep ?_ rfl hsome
      rw [Backend.sections, if_neg]
      rw [hsome]
      simp
  | read q runId m =>
    rw [Backend.advance] at h
    split_ifs at h
    obtain ⟨r, hr, heq⟩ := Option.map_eq_some_iff.mp h
    have hanswered := hs.answered runId q (some (q.answer lib runId r))
    have hright := hs.right_read lib hpc hr q
    rw [Backend.sections, hr, Option.elim_some]
    cases q with
    | finalizeRun teamId =>
      rw [Backend.read] at heq
      split_ifs at heq
      all_goals
        obtain ⟨rfl, rfl⟩ := Prod.mk.inj heq
        refine ⟨⟨hanswered.scorer, hanswered.like, hanswered.unused⟩, trivial, hgrows, ?_⟩
        intro e he
        rw [List.mem_singleton.mp he]
        exact hright
    | getSnapshot | getHistogram =>
      obtain ⟨rfl, rfl⟩ := Prod.mk.inj heq
      refine ⟨hanswered, trivial, hgrows, fun e he ↦ ?_⟩
      rw [List.mem_singleton.mp he]
      exact hright
  | fetch f =>
    rw [Backend.advance] at h
    split_ifs at h
    · obtain ⟨rfl, rfl⟩ := Prod.mk.inj (Option.some_inj.mp h)
      exact hkeep rfl rfl trivial
    · split at h
      all_goals
        obtain ⟨rfl, rfl⟩ := Prod.mk.inj (Option.some_inj.mp h)
        exact hkeep rfl rfl trivial
  | zadd m score hashVals | hmset m teamId hashVals | publish m teamId | zrem name | del name
  | refresh =>
    rw [Backend.advance] at h
    split_ifs at h
    all_goals
      obtain ⟨rfl, rfl⟩ := Prod.mk.inj (Option.some_inj.mp h)
      exact hkeep rfl rfl trivial
  | fetched entries | done => simp [Backend.advance] at h

end

/-- A step does one thing to a run, or nothing. -/
theorem Backend.sections_cases (lib : Libraries) (s : Backend) (pc : BackendPc) :
    s.sections lib pc = [] ∨ ∃ e, s.sections lib pc = [e] := by
  cases pc with
  | scorer pc =>
    cases pc with
    | update event m => exact Or.inr ⟨_, rfl⟩
    | flushUpdate m runIds =>
      rw [sections]
      cases s.scorer.objects[m]? with
      | none => exact Or.inl rfl
      | some r => exact Or.inr ⟨_, rfl⟩
    | _ => exact Or.inl rfl
  | find q runId =>
    rw [sections]
    split_ifs
    · exact Or.inr ⟨_, rfl⟩
    · exact Or.inl rfl
  | read q runId m =>
    rw [sections]
    cases s.scorer.objects[m]? with
    | none => exact Or.inl rfl
    | some r => exact Or.inr ⟨_, rfl⟩
  | _ => exact Or.inl rfl

/-! ## Runs -/

/-- The invariant of the whole service. -/
structure Service.Inv (lib : Libraries) (log : List Section) (s : Service) : Prop where
  backend : s.shared.Inv log
  threads : ∀ pc ∈ s.threads, pc.Ok s.shared.scorer
  right : Justified (Section.Right lib) log

theorem Service.Inv.next {log : List Section} {s t : Service} {e : ServiceEvent}
    (h : s.Inv lib log) (hstep : s.step lib e = some t) : t.Inv lib (log ++ s.sections lib e) := by
  cases e with
  | start call =>
    obtain rfl := Option.some_inj.mp hstep
    rw [Service.sections, List.append_nil]
    refine ⟨h.backend, Pool.forall_start h.threads ?_, h.right⟩
    cases call with
    | scorer call => cases call <;> trivial
    | _ => trivial
  | run i env =>
    obtain ⟨l, pc, r, s', pc', hthreads, hi, hadvance, rfl⟩ := Pool.next_run hstep
    have hsections : s.sections lib (.run i env) = s.shared.sections lib pc := by
      rw [Service.sections, hthreads, ← hi]
      simp
    have hok := h.threads
    rw [hthreads] at hok
    obtain ⟨hinv, hpc', hgrows, hright⟩ := h.backend.advance (hok pc (by simp)) hadvance
    rw [hsections]
    refine ⟨hinv, Pool.forall_run hok (fun q hq ↦ hq.mono hgrows) hpc', ?_⟩
    rcases Backend.sections_cases lib s.shared pc with hnil | ⟨e, hone⟩
    · rw [hnil, List.append_nil]
      exact h.right
    · rw [hone] at hright ⊢
      exact h.right.concat (hright e List.mem_cons_self)

theorem Service.inv_initial : Service.initial.Inv lib [] where
  backend := Backend.inv_initial
  threads _ hpc := absurd hpc List.not_mem_nil
  right := justified_nil _

theorem Service.inv_of_exec {es : List ServiceEvent} {s : Service}
    (h : exec (Service.step lib) .initial es = some s) : s.Inv lib (Service.log lib es) :=
  exec_emitted (P := fun log s ↦ Service.Inv lib log s) (fun _ _ _ _ hs hstep ↦ hs.next hstep)
    Service.inv_initial h

/-! ## No event is lost -/

/-- The event that the call still has to count. -/
def ScorerPc.uncounted : ScorerPc → Multiset TelemetryEvent
  | .find event | .create event | .update event _ => {event}
  | _ => 0

def BackendPc.uncounted : BackendPc → Multiset TelemetryEvent
  | .scorer pc => pc.uncounted
  | _ => 0

def Service.uncounted (s : Service) : Multiset TelemetryEvent :=
  (s.threads.map BackendPc.uncounted).sum

/-- The event with which `Ingest` is called. -/
def ServiceEvent.given : ServiceEvent → Multiset TelemetryEvent
  | .start (.scorer (.ingest event)) => {event}
  | _ => 0

def Section.counted : Section → Multiset TelemetryEvent
  | .ingested event => {event}
  | _ => 0

theorem ScorerPc.uncounted_advance {s t : Scorer} {order : List String} {pc pc' : ScorerPc}
    (h : s.advance order pc = some (t, pc')) (b : Backend) :
    pc.uncounted = ((b.sections lib (.scorer pc)).map Section.counted).sum + pc'.uncounted := by
  cases pc with
  | find event | create event =>
    rw [Scorer.advance] at h
    split at h
    all_goals
      obtain ⟨-, rfl⟩ := Prod.mk.inj (Option.some_inj.mp h)
      rfl
  | update event m =>
    obtain ⟨r, -, heq⟩ := Option.map_eq_some_iff.mp h
    obtain ⟨-, rfl⟩ := Prod.mk.inj heq
    rfl
  | flushUpdate m runIds =>
    obtain ⟨r, -, heq⟩ := Option.map_eq_some_iff.mp h
    obtain ⟨-, rfl⟩ := Prod.mk.inj heq
    rw [Backend.sections]
    cases b.scorer.objects[m]? <;> rfl
  | flushFind runIds =>
    cases runIds with
    | nil =>
      obtain ⟨-, rfl⟩ := Prod.mk.inj (Option.some_inj.mp h)
      rfl
    | cons id runIds =>
      rw [Scorer.advance] at h
      split at h
      all_goals
        obtain ⟨-, rfl⟩ := Prod.mk.inj (Option.some_inj.mp h)
        rfl
  | push event =>
    obtain ⟨-, rfl⟩ := Prod.mk.inj (Option.some_inj.mp h)
    rfl
  | collect =>
    rw [Scorer.advance] at h
    split_ifs at h
    obtain ⟨-, rfl⟩ := Prod.mk.inj (Option.some_inj.mp h)
    rfl
  | done => simp [Scorer.advance] at h

theorem BackendPc.uncounted_advance {s s' : Backend} {env : BackendEnv} {pc pc' : BackendPc}
    (h : s.advance lib env pc = some (s', pc')) :
    pc.uncounted = ((s.sections lib pc).map Section.counted).sum + pc'.uncounted := by
  cases pc with
  | scorer pc =>
    rw [Backend.advance] at h
    split_ifs at h
    obtain ⟨⟨t, pc''⟩, hadvance, heq⟩ := Option.map_eq_some_iff.mp h
    obtain ⟨-, rfl⟩ := Prod.mk.inj heq
    exact ScorerPc.uncounted_advance hadvance s
  | find q runId =>
    rw [Backend.sections]
    rw [Backend.advance] at h
    split at h
    all_goals
      obtain ⟨-, rfl⟩ := Prod.mk.inj (Option.some_inj.mp h)
      split_ifs <;> rfl
  | read q runId m =>
    rw [Backend.advance] at h
    split_ifs at h
    obtain ⟨r, hr, heq⟩ := Option.map_eq_some_iff.mp h
    rw [Backend.sections, hr]
    cases q with
    | finalizeRun teamId =>
      rw [Backend.read] at heq
      split_ifs at heq
      all_goals
        obtain ⟨-, rfl⟩ := Prod.mk.inj heq
        rfl
    | getSnapshot | getHistogram =>
      obtain ⟨-, rfl⟩ := Prod.mk.inj heq
      rfl
  | fetch f =>
    rw [Backend.advance] at h
    split_ifs at h
    · obtain ⟨-, rfl⟩ := Prod.mk.inj (Option.some_inj.mp h)
      rfl
    · split at h
      all_goals
        obtain ⟨-, rfl⟩ := Prod.mk.inj (Option.some_inj.mp h)
        rfl
  | zadd m score hashVals | hmset m teamId hashVals | publish m teamId | zrem name | del name
  | refresh =>
    rw [Backend.advance] at h
    split_ifs at h
    all_goals
      obtain ⟨-, rfl⟩ := Prod.mk.inj (Option.some_inj.mp h)
      rfl
  | fetched entries | done => simp [Backend.advance] at h

theorem Service.uncounted_step {s t : Service} {e : ServiceEvent} (h : s.step lib e = some t) :
    e.given + s.uncounted = ((s.sections lib e).map Section.counted).sum + t.uncounted := by
  cases e with
  | start call =>
    obtain rfl := Option.some_inj.mp h
    have hentry : ServiceEvent.given (.start call) = call.entry.uncounted := by
      cases call with
      | scorer call => cases call <;> rfl
      | _ => rfl
    rw [Service.sections, List.map_nil, List.sum_nil, zero_add, uncounted, uncounted,
      List.map_append, List.sum_append, List.map_singleton, List.sum_singleton, hentry, add_comm]
  | run i env =>
    obtain ⟨l, pc, r, s', pc', hthreads, hi, hadvance, rfl⟩ := Pool.next_run h
    have hsections : s.sections lib (.run i env) = s.shared.sections lib pc := by
      rw [Service.sections, hthreads, ← hi]
      simp
    have hpc := BackendPc.uncounted_advance hadvance
    rw [hsections, uncounted, uncounted, hthreads, List.map_append, List.map_append, List.map_cons,
      List.map_cons, List.sum_append, List.sum_append, List.sum_cons, List.sum_cons, hpc]
    have hgiven : ServiceEvent.given (.run i env) = 0 := rfl
    rw [hgiven]
    abel

/-- The events given to `Ingest` are counted, or a call under way still has to count them. -/
theorem Service.given_eq_counted {es : List ServiceEvent} {s : Service}
    (h : exec (Service.step lib) .initial es = some s) :
    (es.map ServiceEvent.given).sum =
      ((Service.log lib es).map Section.counted).sum + s.uncounted := by
  have hconserves : _ = ((emitted (Service.step lib) (Service.sections lib) _ _).map _).sum + _ :=
    exec_conserves ServiceEvent.given Service.uncounted Section.counted
      (fun _ _ _ hstep ↦ Service.uncounted_step hstep) h
  have hinitial : Service.initial.uncounted = 0 := rfl
  rw [hinitial, add_zero] at hconserves
  exact hconserves

/-! ## The law -/

/-- **The scorer answers one query at a time.** In every interleaving of ingests, flushes, queries,
writes to Redis, deletions and readers, all that happens to a run forms one sequence; every answer
about the run is the answer a scorer without concurrency gives after the events and windows before
it, or, if none of the events of the run has been counted, that of a run without events. And the
events in these sequences are those given to `Ingest`, each once, but for those that calls under way
still have to count. -/
theorem answers_serialize {es : List ServiceEvent} {s : Service}
    (h : exec (Service.step lib) .initial es = some s) :
    (∀ past runId q answer future,
      Service.log lib es = past ++ .answered runId q answer :: future →
      answer = (Runs.replay (callsOf runId past)).answer lib runId q ∨
        Runs.replay (callsOf runId past) runId = none ∧
          answer = some (q.answer lib runId (.new runId))) ∧
    (es.map ServiceEvent.given).sum =
      ((Service.log lib es).map Section.counted).sum + s.uncounted := by
  have hinv := Service.inv_of_exec h
  exact ⟨fun past runId q answer future hlog ↦ hinv.right past _ future hlog,
    Service.given_eq_counted h⟩

/-- Libraries that go as far as an example needs them: of numbers, decimal digits are read. -/
def plainLibraries : Libraries where
  sqrt q := q
  toString _ := "0.000000"
  dump _ := "[]"
  json.int str :=
    if str.toList ≠ [] ∧ str.toList.all Char.isDigit then
      some (Nat.ofDigitChars 10 str.toList 0)
    else none
  json.double _ := none

/-- The first event of a run comes in, and a window is closed and a snapshot taken before it is
counted. -/
def earlySnapshot : List ServiceEvent :=
  [.start (.scorer (.ingest ⟨"r", "b", "", "limit", "S", 0, 5, 5, true, ""⟩)),
    .start (.scorer .flushTps), .start (.query .getSnapshot "r"),
    .run 0 ⟨[], false⟩, .run 0 ⟨[], false⟩, .run 1 ⟨["r"], false⟩, .run 1 ⟨[], false⟩,
    .run 1 ⟨[], false⟩, .run 2 ⟨[], false⟩, .run 2 ⟨[], false⟩, .run 0 ⟨[], false⟩]

theorem answers_serialize_earlySnapshot : ∃ s : Service,
    exec (Service.step plainLibraries) .initial earlySnapshot = some s ∧
    (∀ past runId q answer future,
      Service.log plainLibraries earlySnapshot = past ++ .answered runId q answer :: future →
      answer = (Runs.replay (callsOf runId past)).answer plainLibraries runId q ∨
        Runs.replay (callsOf runId past) runId = none ∧
          answer = some (q.answer plainLibraries runId (.new runId))) ∧
    (earlySnapshot.map ServiceEvent.given).sum =
      ((Service.log plainLibraries earlySnapshot).map Section.counted).sum + s.uncounted := by
  obtain ⟨s, hs⟩ := Option.isSome_iff_exists.mp
    (show (exec (Service.step plainLibraries) .initial earlySnapshot).isSome = true by
      decide +kernel)
  exact ⟨s, hs, answers_serialize hs⟩

end BenchmarkPlatform.Scoring
