import BenchmarkPlatform.Scoring.Scorer
import Mathlib.Order.Interval.Set.UnorderedInterval
import Mathlib.Tactic.FieldSimp
import Mathlib.Tactic.Linarith

/-!
# The ranking and the documented formula

The README and the architecture blueprint give the composite score as the weighted sum
`0.4 L + 0.3 T + 0.3 C` of the latency, throughput and correctness scores. `FinalizeRun` stores
`(0.5 L + 0.5 T) C`, a product. The two rules order some pairs of runs differently. Seen from one
run, with its latencies and its peak fixed, each rule puts it above the other run as soon as its
success rate exceeds a break-even rate; the rules agree on the pair unless the success rate is
between the two break-even rates.
-/

namespace BenchmarkPlatform.Scoring

/-- The composite score the documentation gives. -/
def FinalScore.documentedScore (s : FinalScore) : ℚ :=
  2 / 5 * s.latencyScore + 3 / 10 * s.throughputScore + 3 / 10 * s.correctnessScore

namespace RunMetrics

/-! ## The scores in terms of the metrics -/

/-- One hundred milliseconds over the latency at the 99th percentile, if that is more. -/
def promptness (m : RunMetrics) : ℚ := 1 / max 1 ((m.latencyUs 99 : ℚ) / 100000)

/-- The best second of the run over ten thousand orders. -/
def peak (m : RunMetrics) : ℚ := min (m.maxTps : ℚ) 10000 / 10000

def successRate (m : RunMetrics) : ℚ := m.successfulOrders / m.totalOrders

theorem latencyScore_latencyUs (m : RunMetrics) :
    latencyScore (m.latencyUs 99) = m.promptness := by
  set p : ℚ := (m.latencyUs 99 : ℚ) with hp
  rw [latencyScore, promptness, ← hp]
  rcases lt_or_ge (p / 1000) 1 with h | h
  · have hfast : p / 100000 ≤ 1 := by linarith
    rw [if_pos h, max_eq_left hfast]
    norm_num
  · have hpos : 0 < p := by linarith
    have hratio : 100 / (p / 1000) = 1 / (p / 100000) := by
      field_simp
      norm_num
    rw [if_neg (not_lt.mpr h), hratio]
    rcases le_total 1 (p / 100000) with hslow | hslow
    · rw [max_eq_right hslow, min_eq_right ((div_le_one (by linarith)).mpr hslow)]
    · rw [max_eq_left hslow, div_one, min_eq_left ((le_div_iff₀ (by positivity)).mpr (by linarith))]

theorem throughputScore_maxTps (m : RunMetrics) : throughputScore m.maxTps = m.peak := by
  rw [throughputScore, peak, ← min_div_div_right (by norm_num), div_self (by norm_num), min_comm]

theorem correctness_eq (m : RunMetrics) : m.correctness = m.successRate := by
  rw [correctness, successRate]
  split_ifs with h
  · rfl
  · rw [Nat.eq_zero_of_not_pos h, Nat.cast_zero, div_zero]

theorem promptness_pos (m : RunMetrics) : 0 < m.promptness :=
  one_div_pos.mpr (lt_max_of_lt_left one_pos)

theorem peak_nonneg (m : RunMetrics) : 0 ≤ m.peak :=
  div_nonneg (le_min (Nat.cast_nonneg _) (by norm_num)) (by norm_num)

/-! ## The two orders -/

section

variable (m m' : RunMetrics)

/-- The success rate at which the stored score of the run is that of the other one. -/
def storedBreakEven : ℚ :=
  (m'.promptness + m'.peak) * m'.successRate / (m.promptness + m.peak)

/-- The success rate at which the documented score of the run is that of the other one. -/
def documentedBreakEven : ℚ :=
  m'.successRate + (4 * (m'.promptness - m.promptness) + 3 * (m'.peak - m.peak)) / 3

variable (runId teamId runId' teamId' : String)

theorem compositeScore_lt_iff :
    (m'.finalScore runId' teamId').compositeScore < (m.finalScore runId teamId).compositeScore ↔
      storedBreakEven m m' < m.successRate := by
  have hpos : 0 < m.promptness + m.peak := add_pos_of_pos_of_nonneg m.promptness_pos m.peak_nonneg
  simp only [finalScore, latencyScore_latencyUs, throughputScore_maxTps, correctness_eq]
  rw [storedBreakEven, div_lt_iff₀ hpos]
  constructor <;> intro h <;> linarith

theorem documentedScore_lt_iff :
    (m'.finalScore runId' teamId').documentedScore < (m.finalScore runId teamId).documentedScore ↔
      documentedBreakEven m m' < m.successRate := by
  simp only [FinalScore.documentedScore, finalScore, latencyScore_latencyUs,
    throughputScore_maxTps, correctness_eq, documentedBreakEven]
  constructor <;> intro h <;> linarith

/-- **The stored score ranks as the documented one** if and only if the success rate of the first
run is not between the two break-even rates. Nothing is assumed of the metrics, so that this holds
of whatever calls led to them. -/
theorem compositeScore_lt_iff_documentedScore_lt :
    ((m'.finalScore runId' teamId').compositeScore < (m.finalScore runId teamId).compositeScore ↔
      (m'.finalScore runId' teamId').documentedScore <
        (m.finalScore runId teamId).documentedScore) ↔
    m.successRate ∉ Set.uIoc (storedBreakEven m m') (documentedBreakEven m m') := by
  rw [compositeScore_lt_iff, documentedScore_lt_iff, Set.mem_uIoc]
  constructor
  · rintro h (⟨hlt, hle⟩ | ⟨hlt, hle⟩)
    · exact absurd (h.mp hlt) (not_lt.mpr hle)
    · exact absurd (h.mpr hlt) (not_lt.mpr hle)
  · intro h
    push Not at h
    exact ⟨fun hlt ↦ h.1 hlt, fun hlt ↦ h.2 hlt⟩

end

end RunMetrics

/-- An event that counts, without a latency. -/
def tick (runId : String) (success : Bool) : TelemetryEvent :=
  ⟨runId, "", "", "", "", 0, 0, 0, success, ""⟩

/-- One run has one success and one failure, the other 50 successes and 52 failures in a second that
was closed: the first has the greater stored score, the second the greater documented one. -/
def misrankedCalls : List ScorerCall :=
  List.replicate 50 (.ingest (tick "b" true)) ++ List.replicate 52 (.ingest (tick "b" false)) ++
    [.flushTps, .ingest (tick "a" true), .ingest (tick "a" false)]

theorem compositeScore_misranks :
    ¬∀ (calls calls' : List ScorerCall) (runId teamId runId' teamId' : String)
      (score score' : FinalScore), (Runs.replay calls).finalizeRun runId teamId = some score →
      (Runs.replay calls').finalizeRun runId' teamId' = some score' →
      (score'.compositeScore < score.compositeScore ↔
        score'.documentedScore < score.documentedScore) := by
  intro h
  have ha : ((Runs.replay misrankedCalls).finalizeRun "a" "").map
      (fun score ↦ (score.compositeScore, score.documentedScore)) = some (1 / 4, 11 / 20) := by
    decide +kernel
  have hb : ((Runs.replay misrankedCalls).finalizeRun "b" "").map
      (fun score ↦ (score.compositeScore, score.documentedScore)) =
        some (5051 / 20400, 467601 / 850000) := by
    decide +kernel
  obtain ⟨score, hscore, heq⟩ := Option.map_eq_some_iff.mp ha
  obtain ⟨score', hscore', heq'⟩ := Option.map_eq_some_iff.mp hb
  rw [Prod.mk.injEq] at heq heq'
  have hiff := h _ _ _ _ _ _ _ _ hscore hscore'
  rw [heq.1, heq.2, heq'.1, heq'.2] at hiff
  norm_num at hiff

end BenchmarkPlatform.Scoring
