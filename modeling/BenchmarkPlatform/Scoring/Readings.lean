import BenchmarkPlatform.Scoring.Backend
import BenchmarkPlatform.Scoring.Iterator
import BenchmarkPlatform.Scoring.Monotone
import BenchmarkPlatform.Scoring.Ranking

/-!
# Readings of a run

A client polls the snapshot and the histogram of a run while the run goes on, and final scores are
made of it. Since every answer is that of a scorer without concurrency (`Scoring.Backend`), each
reading fits together. And some figures only grow in the course of a run (`Counter`): of any two
readings that both show one of them, of whatever kind the readings are, the later one does not show
less.
-/

namespace BenchmarkPlatform.Scoring

open Lib

/-! ## Readings that fit together -/

/-- The figures of a snapshot fit together. -/
structure MetricsSnapshot.Consistent (snap : MetricsSnapshot) : Prop where
  outcomes : snap.totalOrders = snap.successfulOrders + snap.failedOrders
  rate : 0 ≤ snap.successRate ∧ snap.successRate ≤ 1
  lastTps : snap.currentTps ≤ snap.maxTps
  maxTps : snap.maxTps ≤ snap.totalOrders
  p50 : 0 ≤ snap.latencyP50Us
  p90 : snap.latencyP50Us ≤ snap.latencyP90Us
  p99 : snap.latencyP90Us ≤ snap.latencyP99Us
  max : snap.latencyP99Us ≤ snap.latencyMaxUs

/-- The figures of a final score fit together. -/
structure FinalScore.Consistent (score : FinalScore) : Prop where
  outcomes : score.successfulOrders ≤ score.totalOrders
  rate : 0 ≤ score.correctness ∧ score.correctness ≤ 1
  composite : 0 ≤ score.compositeScore ∧ score.compositeScore ≤ 1
  maxTps : score.maxTps ≤ score.totalOrders
  p50 : 0 ≤ score.latencyP50Us
  p90 : score.latencyP50Us ≤ score.latencyP90Us
  p99 : score.latencyP90Us ≤ score.latencyP99Us

/-- The figures of a histogram fit together. -/
structure HistogramData.Consistent (data : HistogramData) : Prop where
  count : (data.buckets.map HistogramBucket.count).sum = data.count
  p50 : 0 ≤ data.p50Us
  p90 : data.p50Us ≤ data.p90Us
  p99 : data.p90Us ≤ data.p99Us
  p999 : data.p99Us ≤ data.p999Us
  max : data.p999Us ≤ data.maxUs

def Answer.Consistent : Answer → Prop
  | .snapshot snap => snap.Consistent
  | .histogram data => data.Consistent
  | .score final => final.Consistent

/-! ## Figures that only grow -/

inductive Counter where
  | totalOrders
  | successfulOrders
  | failedOrders
  | maxTps
  | latencyMaxUs
  | samples

/-- What an answer shows of a counter. -/
def Answer.shown : Answer → Counter → Option ℤ
  | .snapshot snap, .totalOrders => some snap.totalOrders
  | .snapshot snap, .successfulOrders => some snap.successfulOrders
  | .snapshot snap, .failedOrders => some snap.failedOrders
  | .snapshot snap, .maxTps => some snap.maxTps
  | .snapshot snap, .latencyMaxUs => some snap.latencyMaxUs
  | .histogram data, .latencyMaxUs => some data.maxUs
  | .histogram data, .samples => some data.count
  | .score final, .totalOrders => some final.totalOrders
  | .score final, .successfulOrders => some final.successfulOrders
  | .score final, .maxTps => some final.maxTps
  | _, _ => none

/-- The later answer shows no counter lower than the earlier one. -/
def Answer.Precedes (answer later : Answer) : Prop :=
  ∀ counter n n', answer.shown counter = some n → later.shown counter = some n' → n ≤ n'

/-- The answer about the run, if the section has given one. -/
def Section.reading (runId : String) : Section → Option Answer
  | .answered id _ answer => if id = runId then answer else none
  | _ => none

/-- The answers about a run, in order. -/
def readings (runId : String) (log : List Section) : List Answer :=
  log.filterMap (Section.reading runId)

/-! ## Metrics of a run -/

namespace RunMetrics

/-- The counters of a run fit together, and its histogram is made of latencies. -/
structure Sound (m : RunMetrics) : Prop where
  outcomes : m.totalOrders = m.successfulOrders + m.failedOrders
  /-- The orders of the best window and of the current one are among all orders. -/
  windows : m.maxTps + m.currentTps ≤ m.totalOrders
  lastTps : m.tpsWindow.getLastD 0 ≤ m.maxTps
  histogram : ∃ values : List ℤ, (∀ v ∈ values, 0 < v) ∧ m.histogram = .ofSamples values

theorem sound_new (id : String) : (new id).Sound where
  outcomes := rfl
  windows := Nat.le_refl 0
  lastTps := Nat.le_refl 0
  histogram := ⟨[], fun _ hv ↦ absurd hv List.not_mem_nil, rfl⟩

variable {m m' : RunMetrics}

theorem Sound.ingest (h : m.Sound) (event : TelemetryEvent) : (m.ingest event).Sound where
  outcomes := by
    have houtcomes := h.outcomes
    simp only [RunMetrics.ingest]
    split_ifs <;> omega
  windows := by
    have hwindows := h.windows
    simp only [RunMetrics.ingest]
    omega
  lastTps := h.lastTps
  histogram := by
    obtain ⟨values, hpos, hvalues⟩ := h.histogram
    simp only [RunMetrics.ingest, hvalues]
    split_ifs with hlatency
    · refine ⟨values ++ [event.latencyNs], fun v hv ↦ ?_, (Histogram.ofSamples_concat _ _).symm⟩
      rcases List.mem_append.mp hv with hv | hv
      · exact hpos v hv
      · exact List.mem_singleton.mp hv ▸ hlatency
    · exact ⟨values, hpos, rfl⟩

theorem Sound.flushTps (h : m.Sound) : m.flushTps.Sound where
  outcomes := h.outcomes
  windows := by
    have hwindows := h.windows
    simp only [RunMetrics.flushTps]
    split_ifs <;> omega
  lastTps := by
    simp only [RunMetrics.flushTps, getLastD_pushWindow]
    split_ifs <;> omega
  histogram := h.histogram

/-- No counter and no maximum has gone down since. -/
structure Precedes (m m' : RunMetrics) : Prop where
  totalOrders : m.totalOrders ≤ m'.totalOrders
  successfulOrders : m.successfulOrders ≤ m'.successfulOrders
  failedOrders : m.failedOrders ≤ m'.failedOrders
  maxTps : m.maxTps ≤ m'.maxTps
  samples : m.histogram.totalCount ≤ m'.histogram.totalCount
  max : m.histogram.max ≤ m'.histogram.max

theorem Precedes.refl (m : RunMetrics) : m.Precedes m :=
  ⟨le_rfl, le_rfl, le_rfl, le_rfl, le_rfl, le_rfl⟩

theorem Precedes.trans {m'' : RunMetrics} (h : m.Precedes m') (h' : m'.Precedes m'') :
    m.Precedes m'' :=
  ⟨h.totalOrders.trans h'.totalOrders, h.successfulOrders.trans h'.successfulOrders,
    h.failedOrders.trans h'.failedOrders, h.maxTps.trans h'.maxTps, h.samples.trans h'.samples,
    h.max.trans h'.max⟩

theorem precedes_ingest (m : RunMetrics) (event : TelemetryEvent) :
    m.Precedes (m.ingest event) where
  totalOrders := Nat.le_succ _
  successfulOrders := by
    simp only [RunMetrics.ingest]
    split_ifs <;> omega
  failedOrders := by
    simp only [RunMetrics.ingest]
    split_ifs <;> omega
  maxTps := le_rfl
  samples := by
    simp only [RunMetrics.ingest]
    split_ifs
    · exact Nat.le_succ _
    · exact le_rfl
  max := by
    simp only [RunMetrics.ingest]
    split_ifs with hlatency
    · rw [Histogram.recordValue]
      dsimp only
      split_ifs <;> omega
    · exact le_rfl

theorem precedes_flushTps (m : RunMetrics) : m.Precedes m.flushTps where
  totalOrders := le_rfl
  successfulOrders := le_rfl
  failedOrders := le_rfl
  maxTps := by
    simp only [RunMetrics.flushTps]
    split_ifs <;> omega
  samples := le_rfl
  max := le_rfl

/-! ## What is read of them -/

theorem Sound.latencyUs_mono (h : m.Sound) {p q : ℚ} (hp : 0 < p) (hpq : p ≤ q) (hq : q ≤ 100) :
    m.latencyUs p ≤ m.latencyUs q := by
  obtain ⟨values, -, hvalues⟩ := h.histogram
  rw [latencyUs, latencyUs, hvalues]
  split_ifs with hcount
  · have hne : values ≠ [] := by
      rintro rfl
      exact absurd hcount (Nat.lt_irrefl 0)
    exact tdiv_thousand_mono (Histogram.valueAtPercentile_mono hne hp hpq hq)
  · exact le_rfl

theorem Sound.latencyUs_nonneg (h : m.Sound) {p : ℚ} (hp : 0 < p) (hle : p ≤ 100) :
    0 ≤ m.latencyUs p := by
  obtain ⟨values, -, hvalues⟩ := h.histogram
  rw [latencyUs, hvalues]
  split_ifs with hcount
  · have hne : values ≠ [] := by
      rintro rfl
      exact absurd hcount (Nat.lt_irrefl 0)
    obtain ⟨v, -, hstop⟩ := Histogram.exists_stopBucket hne hp hle
    rw [Histogram.valueAtPercentile_of_stopBucket hstop]
    exact Int.tdiv_nonneg (getBucketValue_nonneg _) (by decide)
  · exact le_rfl

theorem Sound.consistent_snapshot (h : m.Sound) (runId : String) :
    (m.snapshot runId).Consistent := by
  obtain ⟨values, hpos, hvalues⟩ := h.histogram
  have houtcomes := h.outcomes
  have hwindows := h.windows
  have hmax : m.latencyUs 99 ≤ (m.snapshot runId).latencyMaxUs := by
    simp only [latencyUs, snapshot, hvalues]
    split_ifs with hcount
    · have hne : values ≠ [] := by
        rintro rfl
        exact absurd hcount (Nat.lt_irrefl 0)
      exact tdiv_thousand_mono
        (Histogram.valueAtPercentile_le_max hpos hne (by norm_num) (by norm_num))
    · exact le_rfl
  exact {
    outcomes := houtcomes
    rate := ⟨m.correctness_nonneg, correctness_le_one (by omega)⟩
    lastTps := h.lastTps
    maxTps := Nat.le_trans (Nat.le_add_right _ _) hwindows
    p50 := h.latencyUs_nonneg (by norm_num) (by norm_num)
    p90 := h.latencyUs_mono (by norm_num) (by norm_num) (by norm_num)
    p99 := h.latencyUs_mono (by norm_num) (by norm_num) (by norm_num)
    max := hmax }

theorem Sound.consistent_histogram (h : m.Sound) (sqrt : ℚ → ℚ) :
    (m.histogram.data sqrt).Consistent := by
  obtain ⟨values, hpos, hvalues⟩ := h.histogram
  have hcount := (Histogram.balanced_ofSamples values).sum_buckets sqrt
  rw [hvalues]
  by_cases hzero : (Histogram.ofSamples values).totalCount = 0
  · rw [Histogram.data, if_pos hzero]
    exact ⟨rfl, le_rfl, le_rfl, le_rfl, le_rfl, le_rfl⟩
  · have hne : values ≠ [] := by
      rintro rfl
      exact hzero rfl
    have hmono : ∀ p q : ℚ, 0 < p → p ≤ q → q ≤ 100 →
        ((Histogram.ofSamples values).valueAtPercentile p).tdiv 1000
          ≤ ((Histogram.ofSamples values).valueAtPercentile q).tdiv 1000 :=
      fun p q hp hpq hq ↦ tdiv_thousand_mono (Histogram.valueAtPercentile_mono hne hp hpq hq)
    obtain ⟨v, -, hstop⟩ :=
      Histogram.exists_stopBucket hne (by norm_num : (0 : ℚ) < 50) (by norm_num)
    have hp50 : 0 ≤ (Histogram.ofSamples values).valueAtPercentile 50 := by
      rw [Histogram.valueAtPercentile_of_stopBucket hstop]
      exact getBucketValue_nonneg _
    rw [Histogram.data, if_neg hzero] at hcount ⊢
    exact {
      count := hcount
      p50 := Int.tdiv_nonneg hp50 (by decide)
      p90 := hmono 50 90 (by norm_num) (by norm_num) (by norm_num)
      p99 := hmono 90 99 (by norm_num) (by norm_num) (by norm_num)
      p999 := hmono 99 (999 / 10) (by norm_num) (by norm_num) (by norm_num)
      max := tdiv_thousand_mono
        (Histogram.valueAtPercentile_le_max hpos hne (by norm_num) (by norm_num)) }

theorem Sound.consistent_finalScore (h : m.Sound) (runId teamId : String) :
    (m.finalScore runId teamId).Consistent := by
  have houtcomes := h.outcomes
  have hwindows := h.windows
  have hle : m.successfulOrders ≤ m.totalOrders := by omega
  exact {
    outcomes := hle
    rate := ⟨m.correctness_nonneg, correctness_le_one hle⟩
    composite := compositeScore_mem hle runId teamId
    maxTps := Nat.le_trans (Nat.le_add_right _ _) hwindows
    p50 := h.latencyUs_nonneg (by norm_num) (by norm_num)
    p90 := h.latencyUs_mono (by norm_num) (by norm_num) (by norm_num)
    p99 := h.latencyUs_mono (by norm_num) (by norm_num) (by norm_num) }

theorem Sound.consistent_answer (h : m.Sound) (lib : Libraries) (runId : String) (q : Query) :
    (q.answer lib runId m).Consistent := by
  cases q with
  | getSnapshot => exact h.consistent_snapshot runId
  | getHistogram => exact h.consistent_histogram lib.sqrt
  | finalizeRun teamId => exact h.consistent_finalScore runId teamId

/-- The largest latency in microseconds, as a snapshot and a histogram show it. -/
def maxUs (m : RunMetrics) : ℤ :=
  if m.histogram.totalCount > 0 then m.histogram.max.tdiv 1000 else 0

theorem Precedes.maxUs_le (h : m.Precedes m') (hm : m.Sound) : m.maxUs ≤ m'.maxUs := by
  have hsamples := h.samples
  have hmax := tdiv_thousand_mono h.max
  have hnonneg : 0 ≤ m.histogram.max := by
    obtain ⟨values, hpos, hvalues⟩ := hm.histogram
    rw [hvalues]
    cases values with
    | nil => decide
    | cons v values =>
      exact (hpos v List.mem_cons_self).le.trans (Histogram.le_max_ofSamples List.mem_cons_self)
  have hnonneg' := Int.tdiv_nonneg hnonneg (by decide : (0 : ℤ) ≤ 1000)
  rw [maxUs, maxUs]
  split_ifs <;> omega

/-- What a counter stands at. -/
def counter (m : RunMetrics) : Counter → ℤ
  | .totalOrders => m.totalOrders
  | .successfulOrders => m.successfulOrders
  | .failedOrders => m.failedOrders
  | .maxTps => m.maxTps
  | .latencyMaxUs => m.maxUs
  | .samples => m.histogram.totalCount

theorem Precedes.counter_le (h : m.Precedes m') (hm : m.Sound) (c : Counter) :
    m.counter c ≤ m'.counter c := by
  cases c with
  | totalOrders => exact Int.ofNat_le.mpr h.totalOrders
  | successfulOrders => exact Int.ofNat_le.mpr h.successfulOrders
  | failedOrders => exact Int.ofNat_le.mpr h.failedOrders
  | maxTps => exact Int.ofNat_le.mpr h.maxTps
  | latencyMaxUs => exact h.maxUs_le hm
  | samples => exact Int.ofNat_le.mpr h.samples

theorem data_counters (m : RunMetrics) (sqrt : ℚ → ℚ) :
    (m.histogram.data sqrt).maxUs = m.maxUs ∧
      (m.histogram.data sqrt).count = m.histogram.totalCount := by
  rw [Histogram.data, maxUs]
  by_cases hzero : m.histogram.totalCount = 0
  · rw [if_pos hzero, hzero]
    exact ⟨rfl, rfl⟩
  · rw [if_neg hzero, if_pos (Nat.pos_of_ne_zero hzero)]
    exact ⟨rfl, rfl⟩

/-- **What is shown of a counter is what it stands at**, in readings of all kinds. -/
theorem shown_answer {lib : Libraries} {runId : String} {q : Query} {c : Counter} {n : ℤ}
    (h : (q.answer lib runId m).shown c = some n) : n = m.counter c := by
  obtain ⟨hmax, hcount⟩ := m.data_counters lib.sqrt
  cases q with
  | getSnapshot => cases c <;> first | exact (Option.some_inj.mp h).symm | cases h
  | finalizeRun teamId => cases c <;> first | exact (Option.some_inj.mp h).symm | cases h
  | getHistogram =>
    cases c with
    | latencyMaxUs => exact (Option.some_inj.mp h).symm.trans hmax
    | samples => exact (Option.some_inj.mp h).symm.trans (congrArg Nat.cast hcount)
    | _ => cases h

end RunMetrics

/-! ## Over the sequence of a run -/

theorem sound_metricsAfter (id : String) (log : List Section) : (metricsAfter id log).Sound := by
  have hreplay : ∀ calls, ((Runs.replay calls id).getD (.new id)).Sound := by
    intro calls
    induction calls using List.reverseRecOn with
    | nil => exact RunMetrics.sound_new id
    | append_singleton calls call ih =>
      rw [Runs.replay_concat]
      cases call with
      | ingest event =>
        rcases eq_or_ne id event.benchmarkRunId with rfl | hne
        · rw [Runs.apply, Function.update_self]
          exact ih.ingest event
        · rw [Runs.apply, Function.update_of_ne hne]
          exact ih
      | flushTps =>
        cases hmetrics : Runs.replay calls id with
        | none =>
          rw [Runs.apply_flushTps, hmetrics]
          exact RunMetrics.sound_new id
        | some m =>
          rw [hmetrics] at ih
          rw [Runs.apply_flushTps, hmetrics]
          exact ih.flushTps
  exact hreplay _

/-- What happens later to a run does not lower its counters. -/
theorem precedes_metricsAfter (id : String) (log later : List Section) :
    (metricsAfter id log).Precedes (metricsAfter id (log ++ later)) := by
  have hfoldl : ∀ (calls : List ScorerCall) (runs : Runs),
      ((runs id).getD (.new id)).Precedes ((calls.foldl Runs.apply runs id).getD (.new id)) := by
    intro calls
    induction calls with
    | nil => exact fun runs ↦ RunMetrics.Precedes.refl _
    | cons call calls ih =>
      intro runs
      refine RunMetrics.Precedes.trans ?_ (ih (runs.apply call))
      cases call with
      | ingest event =>
        rcases eq_or_ne id event.benchmarkRunId with rfl | hne
        · rw [Runs.apply, Function.update_self]
          exact RunMetrics.precedes_ingest _ event
        · rw [Runs.apply, Function.update_of_ne hne]
          exact RunMetrics.Precedes.refl _
      | flushTps =>
        cases hmetrics : runs id with
        | none =>
          rw [Runs.apply_flushTps, hmetrics]
          exact RunMetrics.Precedes.refl _
        | some m =>
          rw [Runs.apply_flushTps, hmetrics]
          exact RunMetrics.precedes_flushTps m
  rw [metricsAfter, metricsAfter, callsOf_append, Runs.replay_append]
  exact hfoldl _ _

/-- An answer is read off the metrics after all that has happened to the run. -/
theorem answer_of_right {lib : Libraries} {past : List Section} {runId : String} {q : Query}
    {answer : Answer} (h : (Section.answered runId q (some answer)).Right lib past) :
    answer = q.answer lib runId (metricsAfter runId past) := by
  rw [metricsAfter]
  rcases h with h | ⟨hnone, h⟩
  · rw [Runs.answer] at h
    obtain ⟨m, hm, heq⟩ := Option.map_eq_some_iff.mp h.symm
    rw [hm, Option.getD_some, heq]
  · rw [hnone, Option.getD_none]
    exact Option.some_inj.mp h

theorem mem_readings {runId : String} {log : List Section} {answer : Answer}
    (h : answer ∈ readings runId log) : ∃ q, .answered runId q (some answer) ∈ log := by
  obtain ⟨e, he, hreading⟩ := List.mem_filterMap.mp h
  cases e with
  | answered id q answer' =>
    rw [Section.reading] at hreading
    split_ifs at hreading with hid
    rw [← hid, ← hreading]
    exact ⟨q, he⟩
  | _ => cases hreading

/-- Two answers about a run, the later one about a longer sequence. -/
theorem pairwise_readings {lib : Libraries} {log : List Section}
    (h : Justified (Section.Right lib) log) (runId : String) (past future : List Section)
    (hlog : log = past ++ future) : (readings runId future).Pairwise Answer.Precedes := by
  induction future generalizing past with
  | nil => exact List.Pairwise.nil
  | cons e future ih =>
    have hrest := ih (past ++ [e]) (by rw [hlog, List.append_assoc, List.singleton_append])
    rw [readings, List.filterMap_cons]
    split
    · exact hrest
    rename_i answer hreading
    refine List.pairwise_cons.mpr ⟨fun later hlater ↦ ?_, hrest⟩
    have hfound : answer ∈ readings runId [e] := by
      rw [readings, List.filterMap_cons, hreading]
      exact List.mem_singleton_self answer
    obtain ⟨q, hq⟩ := mem_readings hfound
    obtain rfl := List.mem_singleton.mp hq
    obtain ⟨q', hq'⟩ := mem_readings hlater
    obtain ⟨between, rest, hsplit⟩ := List.append_of_mem hq'
    have hfirst := answer_of_right (h past _ future hlog)
    have hsecond := answer_of_right (h (past ++ .answered runId q (some answer) :: between) _ rest
      (by rw [hlog, hsplit, List.append_assoc, List.cons_append]))
    intro c n n' hn hn'
    rw [hfirst] at hn
    rw [hsecond] at hn'
    rw [RunMetrics.shown_answer hn, RunMetrics.shown_answer hn']
    exact (precedes_metricsAfter runId past _).counter_le (sound_metricsAfter runId past) c

/-- **Readings fit together.** In every interleaving, and for every run: the figures of each answer
that is given about the run fit together, and of any two answers, the later one shows no counter
and no maximum lower than the earlier one. -/
theorem readings_consistent {lib : Libraries} {es : List ServiceEvent} {s : Service}
    (h : exec (Service.step lib) .initial es = some s) (runId : String) :
    (∀ answer ∈ readings runId (Service.log lib es), answer.Consistent) ∧
      (readings runId (Service.log lib es)).Pairwise Answer.Precedes := by
  have hright := (Service.inv_of_exec h).right
  refine ⟨fun answer hanswer ↦ ?_, pairwise_readings hright runId [] _ rfl⟩
  obtain ⟨q, hq⟩ := mem_readings hanswer
  obtain ⟨past, future, hlog⟩ := List.append_of_mem hq
  rw [answer_of_right (hright past _ future hlog)]
  exact (sound_metricsAfter runId past).consistent_answer lib runId q

/-- The telemetry of a run comes in, and a score is made after the first event, a snapshot read
after the second. -/
def polledRun : List ServiceEvent :=
  [.start (.scorer (.ingest (tick "r" true))), .start (.query (.finalizeRun "") "r"),
    .start (.scorer (.ingest (tick "r" false))), .start (.query .getSnapshot "r"),
    .run 0 ⟨[], false⟩, .run 0 ⟨[], false⟩, .run 0 ⟨[], false⟩, .run 1 ⟨[], false⟩,
    .run 1 ⟨[], false⟩, .run 2 ⟨[], false⟩, .run 2 ⟨[], false⟩, .run 3 ⟨[], false⟩,
    .run 3 ⟨[], false⟩]

theorem readings_consistent_polledRun : ∃ s score snap,
    exec (Service.step plainLibraries) .initial polledRun = some s ∧
      readings "r" (Service.log plainLibraries polledRun) = [.score score, .snapshot snap] ∧
      Answer.Precedes (.score score) (.snapshot snap) := by
  obtain ⟨s, hs⟩ := Option.isSome_iff_exists.mp
    (show (exec (Service.step plainLibraries) .initial polledRun).isSome = true by decide +kernel)
  have hreadings : readings "r" (Service.log plainLibraries polledRun) =
      [.score (((RunMetrics.new "r").ingest (tick "r" true)).finalScore "r" ""),
        .snapshot ((((RunMetrics.new "r").ingest (tick "r" true)).ingest
          (tick "r" false)).snapshot "r")] := by decide +kernel
  have hpairwise := (readings_consistent hs "r").2
  rw [hreadings] at hpairwise
  exact ⟨s, _, _, hs, hreadings, List.rel_of_pairwise_cons hpairwise (List.mem_singleton_self _)⟩

end BenchmarkPlatform.Scoring
