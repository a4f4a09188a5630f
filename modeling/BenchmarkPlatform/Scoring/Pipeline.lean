import BenchmarkPlatform.Scoring.Readings
import BenchmarkPlatform.Scoring.Samples
import BenchmarkPlatform.Worker.Reporter
import BenchmarkPlatform.Worker.Wire

/-!
# From the bots to the score

Telemetry goes a long way: bots record events with the reporter of their worker, which buffers them
and hands them to a producer; the broker takes the messages into the topic; `run_consumer` of the
scoring engine reads them one after the other, decodes each and calls `Ingest`; and queries read the
metrics meanwhile. Here all of these run side by side: any number of workers, the network, the one
consumer thread, and the scorer with its other callers.

The network may delay messages, change their order and lose them, but a message that was handed over
once arrives once at most, and the consumer is not restarted. What the JSON library makes of a text
it printed is the parameter `wire`; it is an object with the same members.

Every event that was recorded is then in one place, and an answer of the scorer is made of exactly
the events that were counted before it (`RunMetrics.Tallies`).
-/

namespace BenchmarkPlatform.Scoring

open Lib

/-! ## The parts, side by side -/

structure Pipeline where
  reporters : List (Reporter.State Worker.TelemetryEvent)
  /-- What producers have been handed and the topic has not got yet. -/
  inFlight : List Json
  /-- What got lost on the way. -/
  dropped : List Json
  topic : List Json
  /-- How many messages of the topic the consumer has read. -/
  consumed : ℕ
  /-- The thread of the scorer in which the consumer calls `Ingest`. -/
  ingesting : Option ℕ
  scorer : Service

def Pipeline.initial (workers : ℕ) : Pipeline :=
  ⟨List.replicate workers .initial, [], [], [], 0, none, .initial⟩

inductive PipelineEvent where
  /-- A thread of a worker takes a step in its reporter. -/
  | worker (w : ℕ) (e : PoolEvent (Reporter.Call Worker.TelemetryEvent) Unit)
  /-- The `i`-th of the messages on their way arrives. -/
  | deliver (i : ℕ)
  | drop (i : ℕ)
  /-- The consumer takes the next message. -/
  | consume
  /-- Any other thread of the scoring engine. -/
  | scorer (e : ServiceEvent)

def ServiceEvent.callsIngest : ServiceEvent → Bool
  | .start (.scorer (.ingest _)) => true
  | _ => false

def BackendPc.returned : BackendPc → Bool
  | .scorer .done => true
  | _ => false

variable {lib : Libraries} {wire : Json → Json}

namespace Pipeline

/-- The consumer is not in a call of `Ingest`. -/
def Polling (s : Pipeline) : Prop :=
  ∀ i ∈ s.ingesting, (s.scorer.threads[i]?.any BackendPc.returned) = true

instance (s : Pipeline) : Decidable s.Polling :=
  inferInstanceAs (Decidable (∀ i ∈ s.ingesting, _))

/-- The messages that a step hands to the producer. -/
def messages (wire : Json → Json) (r r' : Reporter.State Worker.TelemetryEvent) : List Json :=
  (r'.shared.handed.drop r.shared.handed.length).map fun d ↦ wire d.event.toJson

def step (lib : Libraries) (wire : Json → Json) (s : Pipeline) : PipelineEvent → Option Pipeline
  | .worker w e =>
    match s.reporters[w]? with
    | none => none
    | some r => (Reporter.step r e).map fun r' ↦
        { s with
          reporters := s.reporters.set w r'
          inFlight := s.inFlight ++ messages wire r r' }
  | .deliver i => (s.inFlight[i]?).map fun j ↦
      { s with
        inFlight := s.inFlight.eraseIdx i
        topic := s.topic ++ [j] }
  | .drop i => (s.inFlight[i]?).map fun j ↦
      { s with
        inFlight := s.inFlight.eraseIdx i
        dropped := s.dropped ++ [j] }
  | .consume =>
    if s.Polling then
      match s.topic[s.consumed]? with
      | none => none
      | some j =>
        match TelemetryEvent.fromJson j with
        -- the exception is swallowed, and the message with it
        | none => some { s with consumed := s.consumed + 1 }
        | some event => (s.scorer.step lib (.start (.scorer (.ingest event)))).map fun t ↦
            { s with
              consumed := s.consumed + 1
              ingesting := some s.scorer.threads.length
              scorer := t }
    else none
  -- nobody else calls `Ingest`
  | .scorer e =>
    if e.callsIngest then none else (s.scorer.step lib e).map fun t ↦ { s with scorer := t }

/-- What a step does to the runs. -/
def sections (lib : Libraries) (s : Pipeline) : PipelineEvent → List Section
  | .scorer e => s.scorer.sections lib e
  | _ => []

/-- All that has happened to the runs. -/
def log (lib : Libraries) (wire : Json → Json) (workers : ℕ) (es : List PipelineEvent) :
    List Section :=
  emitted (step lib wire) (sections lib) (initial workers) es

end Pipeline

/-- The numbers of a recorded event are of the type `int64_t`. -/
def PipelineEvent.Typed : PipelineEvent → Prop
  | .worker _ (.start (.record event _)) => event.Typed
  | _ => True

/-! ## Where the events are -/

/-- The events that entries of a reporter stand for, as the scorer knows them. -/
def sent (entries : Multiset (Reporter.Entry Worker.TelemetryEvent)) : Multiset TelemetryEvent :=
  entries.map fun d ↦ d.event.decode

/-- The events that messages carry. -/
def carried (messages : List Json) : Multiset TelemetryEvent :=
  ↑(messages.filterMap TelemetryEvent.fromJson)

def counted (log : List Section) : Multiset TelemetryEvent := (log.map Section.counted).sum

namespace Pipeline

/-- All events that the bots have recorded. -/
def recorded (s : Pipeline) : Multiset TelemetryEvent :=
  (s.reporters.map fun r ↦ sent ↑r.shared.recorded).sum

def handed (s : Pipeline) : Multiset TelemetryEvent :=
  (s.reporters.map fun r ↦ sent ↑r.shared.handed).sum

/-- What was recorded and not handed over. -/
def unhanded (r : Reporter.State Worker.TelemetryEvent) :
    Multiset (Reporter.Entry Worker.TelemetryEvent) :=
  (r.shared.buffer : Multiset (Reporter.Entry Worker.TelemetryEvent)) +
    Reporter.pending r.threads + r.shared.lost

/-- No event is on its way, and none was lost. -/
structure Drained (s : Pipeline) : Prop where
  reporters : ∀ r ∈ s.reporters,
    r.shared.buffer = [] ∧ (∀ pc ∈ r.threads, pc.batch = []) ∧ r.shared.lost = []
  inFlight : s.inFlight = []
  dropped : s.dropped = []
  consumed : s.topic.length ≤ s.consumed
  scorer : s.scorer.uncounted = 0

end Pipeline

/-- The events of one run. -/
def ofRun (runId : String) (events : Multiset TelemetryEvent) : Multiset TelemetryEvent :=
  events.filter fun event ↦ event.benchmarkRunId = runId

/-- The metrics are those of the events. The windows are not determined by them. -/
structure RunMetrics.Tallies (m : RunMetrics) (events : Multiset TelemetryEvent) : Prop where
  totalOrders : m.totalOrders = events.card
  successfulOrders : m.successfulOrders = events.countP fun event ↦ event.success = true
  failedOrders : m.failedOrders = events.countP fun event ↦ ¬event.success = true
  histogram : ∃ values : List ℤ,
    ↑values = (events.map TelemetryEvent.latencyNs).filter (0 < ·) ∧
      m.histogram = .ofSamples values

/-! ## Metrics tally events -/

theorem counted_append (log log' : List Section) :
    counted (log ++ log') = counted log + counted log' := by
  rw [counted, List.map_append, List.sum_append, counted, counted]

theorem counted_singleton (e : Section) : counted [e] = e.counted := List.sum_singleton

theorem ofRun_add (runId : String) (events events' : Multiset TelemetryEvent) :
    ofRun runId (events + events') = ofRun runId events + ofRun runId events' :=
  Multiset.filter_add _ _ _

theorem ofRun_singleton (runId : String) (event : TelemetryEvent) :
    ofRun runId {event} = if event.benchmarkRunId = runId then {event} else 0 :=
  Multiset.filter_singleton _

section

variable {m : RunMetrics} {events : Multiset TelemetryEvent}

theorem RunMetrics.tallies_new (id : String) : (RunMetrics.new id).Tallies 0 :=
  ⟨rfl, rfl, rfl, [], rfl, rfl⟩

theorem RunMetrics.Tallies.ingest (h : m.Tallies events) (event : TelemetryEvent) :
    (m.ingest event).Tallies (events + {event}) where
  totalOrders := by
    rw [Multiset.card_add, Multiset.card_singleton, ← h.totalOrders]
    rfl
  successfulOrders := by
    rw [Multiset.countP_add, ← h.successfulOrders, ← Multiset.cons_zero, Multiset.countP_cons]
    simp only [RunMetrics.ingest]
    split_ifs <;> simp
  failedOrders := by
    rw [Multiset.countP_add, ← h.failedOrders, ← Multiset.cons_zero, Multiset.countP_cons]
    simp only [RunMetrics.ingest]
    split_ifs <;> simp
  histogram := by
    obtain ⟨values, hvalues, hhistogram⟩ := h.histogram
    rw [Multiset.map_add, Multiset.map_singleton, Multiset.filter_add, ← hvalues,
      Multiset.filter_singleton]
    simp only [RunMetrics.ingest]
    split_ifs with hpos
    · refine ⟨values ++ [event.latencyNs], ?_, ?_⟩
      · rw [← Multiset.coe_add, Multiset.coe_singleton]
      · rw [Histogram.ofSamples_concat, hhistogram]
    · exact ⟨values, by simp, hhistogram⟩

theorem RunMetrics.Tallies.flushTps (h : m.Tallies events) : m.flushTps.Tallies events :=
  ⟨h.totalOrders, h.successfulOrders, h.failedOrders, h.histogram⟩

end

theorem metricsAfter_flushed (id : String) (log : List Section) :
    metricsAfter id (log ++ [.flushed id]) = (metricsAfter id log).flushTps ∨
      metricsAfter id (log ++ [.flushed id]) = metricsAfter id log := by
  have hcall : (Section.flushed id).call id = some .flushTps := if_pos rfl
  rw [metricsAfter, metricsAfter, replay_callsOf_concat hcall, Runs.apply_flushTps]
  cases Runs.replay (callsOf id log) id with
  | none => exact Or.inr rfl
  | some m => exact Or.inl rfl

/-- **The metrics of a run tally its events.** -/
theorem tallies_metricsAfter (id : String) (log : List Section) :
    (metricsAfter id log).Tallies (ofRun id (counted log)) := by
  induction log using List.reverseRecOn with
  | nil => exact RunMetrics.tallies_new id
  | append_singleton log e ih =>
    rw [counted_append, counted_singleton, ofRun_add]
    -- a section that is not about the run changes neither side
    have hother : e.call id = none → ofRun id e.counted = 0 →
        (metricsAfter id (log ++ [e])).Tallies (ofRun id (counted log) + ofRun id e.counted) := by
      intro hcall hnone
      rw [metricsAfter, callsOf_concat_of_call hcall, hnone, add_zero]
      exact ih
    cases e with
    | ingested event =>
      by_cases hid : event.benchmarkRunId = id
      · rw [metricsAfter_ingested hid, Section.counted, ofRun_singleton, if_pos hid]
        exact ih.ingest event
      · refine hother (if_neg hid) ?_
        rw [Section.counted, ofRun_singleton, if_neg hid]
    | flushed runId =>
      by_cases hid : runId = id
      · subst hid
        have hnone : ofRun runId (Section.flushed runId).counted = 0 := rfl
        rw [hnone, add_zero]
        rcases metricsAfter_flushed runId log with h | h
        · rw [h]
          exact ih.flushTps
        · rw [h]
          exact ih
      · exact hother (if_neg hid) rfl
    | answered runId q answer => exact hother rfl rfl

/-! ## What reporters hand over -/

section

open Reporter

variable {r r' : Reporter.State Worker.TelemetryEvent}
  {e : PoolEvent (Reporter.Call Worker.TelemetryEvent) Unit}

/-- The events in a reporter have numbers of their types, also those about to be recorded. -/
structure HoldsTyped (r : Reporter.State Worker.TelemetryEvent) : Prop where
  inv : Reporter.Inv r.shared r.threads
  recorded : ∀ d ∈ r.shared.recorded, d.event.Typed
  push : ∀ pc ∈ r.threads, ∀ event throws, pc = .push event throws → event.Typed

theorem holdsTyped_initial : HoldsTyped .initial where
  inv := Reporter.inv_initial
  recorded d hd := absurd hd List.not_mem_nil
  push pc hpc event throws h := by
    obtain rfl := List.mem_singleton.mp hpc
    exact absurd h (by simp)

/-- What a thread of a reporter does to the entries: it records the event it brings, and hands over
an entry of its batch. -/
theorem reporter_advance {s s' : Reporter.Shared Worker.TelemetryEvent}
    {pc pc' : Reporter.Pc Worker.TelemetryEvent} (h : Reporter.advance s () pc = some (s', pc')) :
    (s'.recorded = s.recorded ∨ ∃ event throws, pc = .push event throws ∧
      s'.recorded = s.recorded ++ [⟨s.recorded.length, event, throws⟩]) ∧
    (s'.handed = s.handed ∨ ∃ d ∈ pc.batch, s'.handed = s.handed ++ [d]) ∧
    ∀ event throws, pc' ≠ .push event throws := by
  have hnext : ∀ caller : Reporter.Caller, ∀ (event : Worker.TelemetryEvent) throws,
      caller.next ≠ Reporter.Pc.push event throws := by
    intro caller event throws
    cases caller <;> simp [Reporter.Caller.next]
  cases pc with
  | push event throws =>
    obtain ⟨rfl, rfl⟩ := Prod.mk.inj (Option.some_inj.mp h)
    refine ⟨Or.inr ⟨event, throws, rfl, rfl⟩, Or.inl rfl, fun event throws ↦ ?_⟩
    split_ifs <;> simp
  | produce caller events =>
    cases events with
    | nil =>
      obtain ⟨rfl, rfl⟩ := Prod.mk.inj (Option.some_inj.mp h)
      exact ⟨Or.inl rfl, Or.inl rfl, hnext caller⟩
    | cons d ds =>
      rw [Reporter.advance] at h
      split_ifs at h
      · obtain ⟨rfl, rfl⟩ := Prod.mk.inj (Option.some_inj.mp h)
        exact ⟨Or.inl rfl, Or.inl rfl, hnext caller⟩
      · obtain ⟨rfl, rfl⟩ := Prod.mk.inj (Option.some_inj.mp h)
        exact ⟨Or.inl rfl, Or.inr ⟨d, List.mem_cons_self, rfl⟩, by simp⟩
  | swap caller =>
    rw [Reporter.advance] at h
    split_ifs at h
    · obtain ⟨rfl, rfl⟩ := Prod.mk.inj (Option.some_inj.mp h)
      exact ⟨Or.inl rfl, Or.inl rfl, hnext caller⟩
    · obtain ⟨rfl, rfl⟩ := Prod.mk.inj (Option.some_inj.mp h)
      exact ⟨Or.inl rfl, Or.inl rfl, by simp⟩
  | stopReturn =>
    obtain ⟨rfl, rfl⟩ := Prod.mk.inj (Option.some_inj.mp h)
    exact ⟨Or.inl rfl, Or.inl rfl, by simp⟩
  | done => simp [Reporter.advance] at h
  | flusherTest | stopBegin | stopJoin =>
    rw [Reporter.advance] at h
    split_ifs at h
    all_goals
      obtain ⟨rfl, rfl⟩ := Prod.mk.inj (Option.some_inj.mp h)
      exact ⟨Or.inl rfl, Or.inl rfl, by simp⟩

/-- **One step of a reporter.** What is handed over was recorded, so its message carries its
event. -/
theorem HoldsTyped.step (h : HoldsTyped r) (hwire : ∀ e : Worker.TelemetryEvent,
      (wire e.toJson).SameMembers e.toJson)
    (htyped : ∀ event throws, e = .start (.record event throws) → event.Typed)
    (hstep : Reporter.step r e = some r') :
    HoldsTyped r' ∧
      sent ↑r'.shared.handed = sent ↑r.shared.handed + carried (Pipeline.messages wire r r') := by
  have hinv := Reporter.inv_step h.inv hstep
  cases e with
  | start call =>
    obtain rfl := Option.some_inj.mp hstep
    refine ⟨⟨hinv, h.recorded, Pool.forall_start h.push fun event throws hentry ↦ ?_⟩, ?_⟩
    · cases call with
      | record event' throws' =>
        obtain ⟨rfl, rfl⟩ := Reporter.Pc.push.inj hentry
        exact htyped event' throws' rfl
      | stop => exact absurd hentry (by simp [Reporter.Call.entry])
    · rw [Pipeline.messages, List.drop_length]
      exact (add_zero _).symm
  | run i u =>
    obtain ⟨l, pc, rest, s', pc', hthreads, -, hadvance, rfl⟩ := Pool.next_run hstep
    obtain ⟨hrecorded, hhanded, hpc'⟩ := reporter_advance hadvance
    have hpush := h.push
    have hmem := h.inv.mem_recorded
    rw [hthreads] at hpush hmem
    refine ⟨⟨hinv, ?_, Pool.forall_run hpush (fun q hq ↦ hq) fun event throws heq ↦
      absurd heq (hpc' event throws)⟩, ?_⟩
    · rcases hrecorded with hsame | ⟨event, throws, rfl, hnew⟩
      · rw [hsame]
        exact h.recorded
      · rw [hnew]
        intro d hd
        rcases List.mem_append.mp hd with hd | hd
        · exact h.recorded d hd
        · obtain rfl := List.mem_singleton.mp hd
          exact hpush _ (by simp) event throws rfl
    · rw [Pipeline.messages]
      rcases hhanded with hsame | ⟨d, hd, hnew⟩
      · rw [hsame, List.drop_length]
        exact (add_zero _).symm
      · have hdtyped := h.recorded d ((hmem d).mpr (Or.inr (Or.inl ⟨pc, by simp, hd⟩)))
        have hdecode : TelemetryEvent.fromJson (wire d.event.toJson) = some d.event.decode :=
          TelemetryEvent.fromJson_toJson hdtyped (hwire d.event)
        rw [hnew, List.drop_left, carried, List.map_singleton, List.filterMap_cons_some hdecode,
          List.filterMap_nil, sent, sent, ← Multiset.coe_add, Multiset.map_add]
        rfl

end

/-! ## The account of a run -/

theorem carried_append (messages messages' : List Json) :
    carried (messages ++ messages') = carried messages + carried messages' := by
  rw [carried, List.filterMap_append, ← Multiset.coe_add, carried, carried]

theorem carried_concat_eraseIdx {messages : List Json} (rest : List Json) {i : ℕ} {j : Json}
    (hj : messages[i]? = some j) :
    carried (messages.eraseIdx i) + carried (rest ++ [j]) = carried messages + carried rest := by
  obtain ⟨hi, rfl⟩ := List.getElem?_eq_some_iff.mp hj
  have hperm : messages.Perm (messages[i] :: messages.eraseIdx i) :=
    (List.getElem_cons_eraseIdx_perm hi).symm
  have hcarried : carried messages = carried [messages[i]] + carried (messages.eraseIdx i) := by
    rw [← carried_append, carried, carried]
    exact Multiset.coe_eq_coe.mpr (hperm.filterMap _)
  rw [carried_append, hcarried]
  abel

/-- The account of the events after a run: the messages that were handed over are on their way, or
lost, or in the topic; and the scorer has been given what the consumer has read. -/
structure Pipeline.Account (lib : Libraries) (log : List Section) (s : Pipeline) : Prop where
  reporters : ∀ r ∈ s.reporters, HoldsTyped r
  handed : s.handed = carried s.inFlight + carried s.dropped + carried s.topic
  scorer : ∃ es, exec (Service.step lib) .initial es = some s.scorer ∧
    Service.log lib es = log ∧
    (es.map ServiceEvent.given).sum = carried (s.topic.take s.consumed)
  consumed : s.consumed ≤ s.topic.length

theorem Pipeline.account_initial (lib : Libraries) (workers : ℕ) :
    (Pipeline.initial workers).Account lib [] where
  reporters r hr := by
    obtain rfl := List.eq_of_mem_replicate hr
    exact holdsTyped_initial
  handed := by
    have hzero :
        sent ↑(Reporter.State.initial (ε := Worker.TelemetryEvent)).shared.handed = 0 := rfl
    rw [Pipeline.handed, Pipeline.initial, List.map_replicate, hzero]
    simp [carried]
  scorer := ⟨[], rfl, rfl, rfl⟩
  consumed := Nat.zero_le _

namespace Pipeline.Account

variable {log : List Section} {s t : Pipeline}

/-- The scorer takes a step; if that is a call of `Ingest`, the consumer has read its event. -/
theorem run_scorer (h : s.Account lib log) {e : ServiceEvent} {scorer : Service}
    (hstep : s.scorer.step lib e = some scorer) : ∃ es,
      exec (Service.step lib) .initial es = some scorer ∧
      Service.log lib es = log ++ s.scorer.sections lib e ∧
      (es.map ServiceEvent.given).sum = carried (s.topic.take s.consumed) + e.given := by
  obtain ⟨es, hexec, hlog, hsum⟩ := h.scorer
  refine ⟨es ++ [e], ?_, ?_, ?_⟩
  · rw [exec_append, hexec]
    exact exec_cons_eq_some.mpr ⟨scorer, hstep, rfl⟩
  · rw [Service.log, emitted_append [e] hexec, ← hlog, emitted, hstep]
    simp [emitted, Service.log]
  · rw [List.map_append, List.sum_append, List.map_singleton, List.sum_singleton, hsum]

/-- **The step lemma.** -/
theorem step (h : s.Account lib log)
    (hwire : ∀ e : Worker.TelemetryEvent, (wire e.toJson).SameMembers e.toJson)
    {e : PipelineEvent} (htyped : e.Typed) (hstep : s.step lib wire e = some t) :
    t.Account lib (log ++ s.sections lib e) := by
  cases e with
  | worker w e =>
    rw [Pipeline.step] at hstep
    split at hstep
    · simp at hstep
    rename_i r hr
    obtain ⟨r', hr', rfl⟩ := Option.map_eq_some_iff.mp hstep
    obtain ⟨hw, hget⟩ := List.getElem?_eq_some_iff.mp hr
    obtain ⟨hnew, hhanded⟩ := (h.reporters r (List.mem_of_getElem? hr)).step hwire
      (fun event throws heq ↦ by
        subst heq
        exact htyped) hr'
    have hsections : s.sections lib (.worker w e) = [] := rfl
    rw [hsections, List.append_nil]
    refine ⟨fun q hq ↦ ?_, ?_, h.scorer, h.consumed⟩
    · rcases List.mem_or_eq_of_mem_set hq with hq | rfl
      · exact h.reporters q hq
      · exact hnew
    · -- what this reporter has handed over is on its way now
      have hsum := sum_map_set (fun q : Reporter.State Worker.TelemetryEvent ↦
        sent ↑q.shared.handed) r' hr
      have hbefore := h.handed
      rw [Pipeline.handed] at hbefore ⊢
      rw [hhanded, hbefore] at hsum
      apply add_right_cancel (b := sent ↑r.shared.handed)
      dsimp only
      rw [hsum, carried_append]
      abel
  | deliver i =>
    obtain ⟨j, hj, rfl⟩ := Option.map_eq_some_iff.mp hstep
    have hsections : s.sections lib (.deliver i) = [] := rfl
    rw [hsections, List.append_nil]
    refine ⟨h.reporters, ?_, ?_, ?_⟩
    · have hmoved := carried_concat_eraseIdx s.topic hj
      have hhanded := h.handed
      rw [Pipeline.handed] at hhanded ⊢
      rw [hhanded]
      dsimp only
      rw [add_right_comm, ← hmoved]
      abel
    · obtain ⟨es, hexec, hlog, hsum⟩ := h.scorer
      refine ⟨es, hexec, hlog, ?_⟩
      rw [List.take_append_of_le_length h.consumed]
      exact hsum
    · rw [List.length_append]
      exact h.consumed.trans (Nat.le_add_right _ _)
  | drop i =>
    obtain ⟨j, hj, rfl⟩ := Option.map_eq_some_iff.mp hstep
    have hsections : s.sections lib (.drop i) = [] := rfl
    rw [hsections, List.append_nil]
    refine ⟨h.reporters, ?_, h.scorer, h.consumed⟩
    have hmoved := carried_concat_eraseIdx s.dropped hj
    have hhanded := h.handed
    rw [Pipeline.handed] at hhanded ⊢
    rw [hhanded]
    dsimp only
    rw [← hmoved]
  | consume =>
    rw [Pipeline.step] at hstep
    split_ifs at hstep
    split at hstep
    · simp at hstep
    rename_i j hj
    obtain ⟨hlt, hget⟩ := List.getElem?_eq_some_iff.mp hj
    have htake : carried (s.topic.take (s.consumed + 1))
        = carried (s.topic.take s.consumed) + carried [j] := by
      rw [List.take_add_one, hj, Option.toList_some, carried_append]
    have hsections : s.sections lib .consume = [] := rfl
    rw [hsections, List.append_nil]
    split at hstep
    · rename_i hnone
      obtain rfl := Option.some_inj.mp hstep
      obtain ⟨es, hexec, hlog, hsum⟩ := h.scorer
      refine ⟨h.reporters, h.handed, ⟨es, hexec, hlog, ?_⟩, hlt⟩
      rw [htake, hsum]
      simp [carried, hnone]
    · rename_i event hevent
      obtain ⟨scorer, hscorer, rfl⟩ := Option.map_eq_some_iff.mp hstep
      obtain ⟨es, hexec, hlog, hsum⟩ := h.run_scorer hscorer
      refine ⟨h.reporters, h.handed, ⟨es, hexec, ?_, ?_⟩, hlt⟩
      · rw [hlog]
        exact List.append_nil log
      · rw [htake, hsum]
        simp [carried, hevent, ServiceEvent.given]
  | scorer e =>
    rw [Pipeline.step] at hstep
    split_ifs at hstep with hcalls
    obtain ⟨scorer, hscorer, rfl⟩ := Option.map_eq_some_iff.mp hstep
    have hnone : e.given = 0 := by
      rcases e with ((event | _) | _ | _ | _) | _
      · exact absurd rfl hcalls
      all_goals rfl
    obtain ⟨es, hexec, hlog, hsum⟩ := h.run_scorer hscorer
    refine ⟨h.reporters, h.handed, ⟨es, hexec, hlog, ?_⟩, h.consumed⟩
    rw [hsum, hnone, add_zero]

end Pipeline.Account

/-! ## From end to end -/

namespace Pipeline.Account

variable {log : List Section} {s : Pipeline}

/-- What was recorded is in the buffers and batches, lost in a flush, or handed over. -/
theorem recorded_eq (h : s.Account lib log) :
    s.recorded = (s.reporters.map fun r ↦ sent (unhanded r)).sum + s.handed := by
  rw [recorded, Pipeline.handed, ← List.sum_map_add]
  refine congrArg List.sum (List.map_congr_left fun r hr ↦ ?_)
  rw [(h.reporters r hr).inv.account, sent, sent, sent, ← Multiset.map_add, unhanded,
    add_right_comm]

/-- What the consumer has read is counted or about to be. -/
theorem carried_take (h : s.Account lib log) :
    carried (s.topic.take s.consumed) = counted log + s.scorer.uncounted := by
  obtain ⟨es, hexec, rfl, hsum⟩ := h.scorer
  rw [← hsum, Service.given_eq_counted hexec, counted]

end Pipeline.Account

/-- **Every event counts once.** However workers, network, consumer and scorer interleave, the
events that have been counted are among those recorded, each as often; when no event is on its way
any more and none was lost, they are the same; and every answer is read off metrics that tally the
events of its run counted before it. -/
theorem events_counted_once
    (hwire : ∀ e : Worker.TelemetryEvent, (wire e.toJson).SameMembers e.toJson) {workers : ℕ}
    {es : List PipelineEvent} (htyped : ∀ e ∈ es, e.Typed) {s : Pipeline}
    (h : exec (Pipeline.step lib wire) (.initial workers) es = some s) :
    let log := Pipeline.log lib wire workers es
    counted log ≤ s.recorded ∧
    (s.Drained → counted log = s.recorded) ∧
    ∀ past runId q answer future, log = past ++ .answered runId q (some answer) :: future →
      ∃ m : RunMetrics, answer = q.answer lib runId m ∧ m.Tallies (ofRun runId (counted past)) := by
  have haccount : s.Account lib (Pipeline.log lib wire workers es) :=
    (guarded_of_forall_mem PipelineEvent.Typed htyped _).exec_emitted
      (P := fun log s ↦ Pipeline.Account lib log s)
      (fun log s e t hs he hstep ↦ hs.step hwire he hstep) (Pipeline.account_initial lib workers) h
  have hrecorded := haccount.recorded_eq
  have htaken := haccount.carried_take
  refine ⟨?_, fun hdrained ↦ ?_, fun past runId q answer future hlog ↦ ?_⟩
  · rw [hrecorded, haccount.handed]
    calc counted (Pipeline.log lib wire workers es)
        ≤ counted (Pipeline.log lib wire workers es) + s.scorer.uncounted :=
          Multiset.le_add_right _ _
      _ = carried (s.topic.take s.consumed) := htaken.symm
      _ ≤ carried (s.topic.take s.consumed) + carried (s.topic.drop s.consumed) :=
          Multiset.le_add_right _ _
      _ = carried s.topic := by rw [← carried_append, List.take_append_drop]
      _ ≤ _ := (Multiset.le_add_left _ _).trans (Multiset.le_add_left _ _)
  · have hstock : ∀ r ∈ s.reporters, sent (Pipeline.unhanded r) = 0 := by
      intro r hr
      obtain ⟨hbuffer, hbatches, hlost⟩ := hdrained.reporters r hr
      have hpending : Reporter.pending r.threads = 0 :=
        Multiset.eq_zero_of_forall_notMem fun d hd ↦ by
          obtain ⟨pc, hpc, hmem⟩ := Reporter.mem_pending.mp hd
          rw [hbatches pc hpc] at hmem
          exact List.not_mem_nil hmem
      rw [Pipeline.unhanded, hbuffer, hpending, hlost]
      rfl
    rw [hrecorded, List.map_congr_left hstock, List.map_const', List.sum_replicate, nsmul_zero,
      zero_add, haccount.handed, hdrained.inFlight, hdrained.dropped]
    rw [List.take_of_length_le hdrained.consumed, hdrained.scorer, add_zero] at htaken
    rw [htaken]
    exact (zero_add _).symm
  · obtain ⟨es', hexec', hlog', -⟩ := haccount.scorer
    have hright := (Service.inv_of_exec hexec').right past _ future (hlog'.trans hlog)
    exact ⟨metricsAfter runId past, answer_of_right hright, tallies_metricsAfter runId past⟩

theorem sameMembers_toJson (e : Worker.TelemetryEvent) :
    e.toJson.sorted.SameMembers e.toJson := by
  rw [Worker.TelemetryEvent.toJson]
  split_ifs
  · exact Json.sameMembers_sorted (by simp [Worker.TelemetryEvent.members])
  · exact Json.sameMembers_sorted (by simp [Worker.TelemetryEvent.members])

/-- A worker records one event, which goes all the way, and the run is finalized. -/
def oneEvent : List PipelineEvent :=
  [.worker 0 (.start (.record Worker.refusal false)), .worker 0 (.run 1 ()), .worker 0 (.run 0 ()),
    .worker 0 (.run 0 ()), .worker 0 (.run 0 ()), .deliver 0, .consume,
    .scorer (.run 0 ⟨[], false⟩), .scorer (.run 0 ⟨[], false⟩), .scorer (.run 0 ⟨[], false⟩),
    .scorer (.start (.query (.finalizeRun "team-1") "run-1")),
    .scorer (.run 1 ⟨[], false⟩), .scorer (.run 1 ⟨[], false⟩)]

theorem events_counted_once_oneEvent : ∃ s : Pipeline,
    exec (Pipeline.step plainLibraries Json.sorted) (.initial 1) oneEvent = some s ∧
    counted (Pipeline.log plainLibraries Json.sorted 1 oneEvent) = {Worker.refusal.decode} ∧
    counted (Pipeline.log plainLibraries Json.sorted 1 oneEvent) ≤ s.recorded := by
  have htyped : ∀ e ∈ oneEvent, e.Typed := by
    intro e he
    simp only [oneEvent, List.mem_cons, List.not_mem_nil, or_false] at he
    rcases he with rfl | he
    · exact ⟨by decide, by decide, by decide⟩
    · rcases he with rfl | rfl | rfl | rfl | rfl | rfl | rfl | rfl | rfl | rfl | rfl | rfl
      all_goals trivial
  have hrun : ((exec (Pipeline.step plainLibraries Json.sorted) (.initial 1) oneEvent).isSome &&
      decide (counted (Pipeline.log plainLibraries Json.sorted 1 oneEvent)
        = {Worker.refusal.decode})) = true := by decide +kernel
  obtain ⟨hsome, hcounted⟩ := Bool.and_eq_true_iff.mp hrun
  obtain ⟨s, hs⟩ := Option.isSome_iff_exists.mp hsome
  exact ⟨s, hs, of_decide_eq_true hcounted, (events_counted_once sameMembers_toJson htyped hs).1⟩

end BenchmarkPlatform.Scoring
