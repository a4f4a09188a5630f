import Mathlib.Algebra.Order.Round
import Mathlib.Data.Finmap
import Mathlib.Data.Rat.Floor
import BenchmarkPlatform.Lib.Transition

/-!
# Benchmark runs

`Orchestrator` of `services/bot-orchestrator`: `start_benchmark` creates a run and a thread that
executes its phases, `stop_benchmark` cancels it. A run id can be started again once its run has
ended, so runs are numbered: an *attempt* is a run object together with its executor thread, and
`runs_` names the latest attempt of each id.

`execute_phases` and the ramp loop inside it branch only to leave early, so the executor is its list
of instructions: what it would do from here on if it were never cancelled. One step is one
instruction, which is one critical section, one reading of the cancel flag or one publication.

The command topic is one log; an entry carries the attempt it belongs to, for the statements only.
Floating-point expressions are read exactly.
-/

namespace BenchmarkPlatform.Orchestrator

open Lib

/-! ## Data -/

structure Config where
  defaultOrdersPerSec : ℤ
  defaultSymbols : List String

structure Profile where
  limitRatio : ℚ
  marketRatio : ℚ
  cancelRatio : ℚ
  ordersPerSecPerBot : ℤ
  symbols : List String

structure StartBenchmarkRequest where
  runId : String
  submissionId : String
  endpointUrl : String
  botCount : ℤ
  durationSeconds : ℤ
  profile : Profile

structure BotAssignment where
  runId : String
  endpointUrl : String
  botCount : ℤ
  phase : String
  durationMs : ℤ
  ordersPerSecPerBot : ℤ
  limitRatio : ℚ
  marketRatio : ℚ
  cancelRatio : ℚ
  symbols : List String

inductive RunStatus where
  | pending
  | warmup
  | ramping
  | sustained
  | cooldown
  | completed
  | stopped
  | failed
  deriving DecidableEq, Repr

def RunStatus.toString : RunStatus → String
  | .pending => "pending"
  | .warmup => "warmup"
  | .ramping => "ramping"
  | .sustained => "sustained"
  | .cooldown => "cooldown"
  | .completed => "completed"
  | .stopped => "stopped"
  | .failed => "failed"

structure BenchmarkRun where
  runId : String
  submissionId : String
  endpointUrl : String
  botCount : ℤ
  durationSeconds : ℤ
  status : RunStatus
  currentPhase : String
  startedAt : String
  completedAt : String
  errorMsg : String
  profile : StartBenchmarkRequest
  cancelFlag : Bool

/-! ## Phases -/

structure PhaseSpec where
  name : String
  status : RunStatus
  botCount : ℤ
  durationMs : ℤ
  isRamp : Bool

/-- A C++ `int`: arithmetic wraps around at 32 bits. -/
def toInt (n : ℤ) : ℤ := Int.bmod n (2 ^ 32)

def warmupBots (req : StartBenchmarkRequest) : ℤ := max 1 ⌈(req.botCount : ℚ) / 10⌉

def buildPhases (req : StartBenchmarkRequest) : List PhaseSpec :=
  let totalMs := toInt (req.durationSeconds * 1000)
  let warmupMs := totalMs.tdiv 10
  let rampMs := totalMs.tdiv 5
  let burstMs := totalMs.tdiv 5
  let cooldownMs := totalMs.tdiv 10
  let peakMs := totalMs - warmupMs - rampMs - burstMs - cooldownMs
  [⟨"warmup", .warmup, warmupBots req, warmupMs, false⟩,
    ⟨"ramp", .ramping, req.botCount, rampMs, true⟩,
    ⟨"peak", .sustained, req.botCount, peakMs, false⟩,
    ⟨"burst", .sustained, toInt (req.botCount * 2), burstMs, false⟩,
    ⟨"cooldown", .cooldown, warmupBots req, cooldownMs, false⟩]

def buildAssignment (runId : String) (req : StartBenchmarkRequest) (phase : String)
    (botCount durationMs : ℤ) : BotAssignment where
  runId := runId
  endpointUrl := req.endpointUrl
  botCount := botCount
  phase := phase
  durationMs := durationMs
  ordersPerSecPerBot :=
    if phase = "burst" then toInt (req.profile.ordersPerSecPerBot * 2)
    else req.profile.ordersPerSecPerBot
  limitRatio := req.profile.limitRatio
  marketRatio := req.profile.marketRatio
  cancelRatio := req.profile.cancelRatio
  symbols := req.profile.symbols

def stepIntervalMs : ℤ := 2000

/-- `total_steps` of the ramp loop. -/
def totalSteps (phase : PhaseSpec) : ℕ := (max 1 (phase.durationMs.tdiv stepIntervalMs)).toNat

/-- The assignment of one step of the ramp. -/
def rampAssignment (runId : String) (req : StartBenchmarkRequest) (phase : PhaseSpec)
    (step : ℕ) : BotAssignment :=
  let botIncrement : ℚ := (req.botCount - warmupBots req : ℤ) / totalSteps phase
  let currentBots := warmupBots req + round (step * botIncrement)
  let currentBots := max (min currentBots req.botCount) 1
  buildAssignment runId req "ramp" currentBots
    (max stepIntervalMs (phase.durationMs - step * stepIntervalMs))

/-! ## The executor -/

inductive Instr where
  /-- Leave if the cancel flag is set. -/
  | check
  | updateRunPhase (phase : String) (status : RunStatus)
  | publish (a : BotAssignment)
  /-- `wait_for_phase`: leave if the cancel flag is set when the wait ends. -/
  | wait (durationMs : ℤ)
  /-- The guarded block at the end of `execute_phases`. -/
  | complete

/-- The next instruction looks at the cancel flag. -/
def Pauses : List Instr → Prop
  | .check :: _ => True
  | .wait _ :: _ => True
  | _ => False

def rampStep (runId : String) (req : StartBenchmarkRequest) (phase : PhaseSpec) (step : ℕ) :
    List Instr :=
  [.check, .publish (rampAssignment runId req phase step)]
    ++ if step < totalSteps phase then [.wait stepIntervalMs] else []

def executeRampPhase (runId : String) (req : StartBenchmarkRequest) (phase : PhaseSpec) :
    List Instr :=
  (List.range (totalSteps phase + 1)).flatMap (rampStep runId req phase)

def executePhase (runId : String) (req : StartBenchmarkRequest) (phase : PhaseSpec) : List Instr :=
  [.check, .updateRunPhase phase.name phase.status]
    ++ if phase.isRamp then executeRampPhase runId req phase
      else [.publish (buildAssignment runId req phase.name phase.botCount phase.durationMs),
        .wait phase.durationMs]

def executePhases (runId : String) (req : StartBenchmarkRequest) : List Instr :=
  (buildPhases req).flatMap (executePhase runId req)
    ++ [.complete, .updateRunPhase "idle" .completed]

/-- Where an executor is. -/
inductive ExecutorPc where
  /-- These instructions are left. -/
  | running (program : List Instr)
  /-- A publication has thrown: `handle_phase_error` comes next. -/
  | failing (phase error : String)

structure Attempt where
  run : BenchmarkRun
  pc : ExecutorPc

/-- The fate of a publication. One that throws while flushing may have reached the topic. -/
inductive Delivery where
  | sent
  | threw (error : String) (reached : Bool)

/-- Whether the assignment is on the topic. -/
def Delivery.Reached : Delivery → Prop
  | .sent => True
  | .threw _ reached => reached = true

/-- What a step reads from outside. -/
structure Env where
  now : String
  delivery : Delivery

/-- The entries a publication adds. -/
def Delivery.log (d : Delivery) (a : BotAssignment) : List BotAssignment :=
  match d with
  | .sent => [a]
  | .threw _ reached => if reached then [a] else []

/-- The next step of an executor, and what it adds to the topic. -/
def Attempt.next (env : Env) (a : Attempt) : Option (Attempt × List BotAssignment) :=
  match a.pc with
  | .running [] => none
  | .running (.check :: rest) =>
    some (⟨a.run, .running (if a.run.cancelFlag then [] else rest)⟩, [])
  | .running (.updateRunPhase phase status :: rest) =>
    some (⟨{ a.run with currentPhase := phase, status := status }, .running rest⟩, [])
  | .running (.publish assignment :: rest) =>
    some (⟨a.run, match env.delivery with
      | .sent => .running rest
      | .threw error _ => .failing assignment.phase error⟩, env.delivery.log assignment)
  | .running (.wait _ :: rest) =>
    some (⟨a.run, .running (if a.run.cancelFlag then [] else rest)⟩, [])
  | .running (.complete :: rest) =>
    some (⟨if a.run.status ≠ .stopped ∧ a.run.status ≠ .failed then
        { a.run with status := .completed, currentPhase := "completed", completedAt := env.now }
      else a.run, .running rest⟩, [])
  | .failing phase error =>
    some (⟨{ a.run with
      status := .failed, currentPhase := phase, errorMsg := error, completedAt := env.now },
      .running []⟩, [])

/-! ## The orchestrator -/

/-- An entry of the command topic, with the attempt it was published for. -/
structure Entry where
  attempt : ℕ
  assignment : BotAssignment

structure State where
  /-- The latest attempt of each run id. -/
  runs : Finmap fun _ : String ↦ ℕ
  attempts : List Attempt
  /-- The attempts that `stop_benchmark` has stopped and not yet published the stop of. -/
  stopping : List ℕ
  topic : List Entry

def State.initial : State := ⟨∅, [], [], []⟩

/-- The request with its run id and its defaults filled in, or the reason to refuse it. -/
def StartBenchmarkRequest.resolve (cfg : Config) (uuid : String) (req : StartBenchmarkRequest) :
    Except String StartBenchmarkRequest :=
  let req := if req.runId = "" then { req with runId := uuid } else req
  if req.endpointUrl = "" then .error "endpoint_url is required"
  else if req.botCount ≤ 0 then .error "bot_count must be positive"
  else if req.durationSeconds ≤ 0 then .error "duration_seconds must be positive"
  else
    let p := req.profile
    let p := if p.ordersPerSecPerBot ≤ 0 then
      { p with ordersPerSecPerBot := cfg.defaultOrdersPerSec } else p
    let p := if p.symbols = [] then { p with symbols := cfg.defaultSymbols } else p
    let p := if p.limitRatio = 0 ∧ p.marketRatio = 0 ∧ p.cancelRatio = 0 then
      { p with limitRatio := 6 / 10, marketRatio := 3 / 10, cancelRatio := 1 / 10 } else p
    if 1 / 100 < |p.limitRatio + p.marketRatio + p.cancelRatio - 1| then
      .error "profile ratios must sum to 1.0"
    else .ok { req with profile := p }

/-- The run `start_benchmark` creates. -/
def StartBenchmarkRequest.newRun (req : StartBenchmarkRequest) (now : String) : BenchmarkRun where
  runId := req.runId
  submissionId := req.submissionId
  endpointUrl := req.endpointUrl
  botCount := req.botCount
  durationSeconds := req.durationSeconds
  status := .pending
  currentPhase := "pending"
  startedAt := now
  completedAt := ""
  errorMsg := ""
  profile := req
  cancelFlag := false

def State.attempt (s : State) (runId : String) : Option Attempt :=
  (s.runs.lookup runId).bind fun k ↦ s.attempts[k]?

def RunStatus.Terminal (status : RunStatus) : Prop :=
  status = .completed ∨ status = .stopped ∨ status = .failed

instance : DecidablePred RunStatus.Terminal := fun status ↦
  inferInstanceAs (Decidable (status = .completed ∨ status = .stopped ∨ status = .failed))

/-- `start_benchmark`, up to and including the start of the executor thread. -/
def State.startBenchmark (cfg : Config) (uuid now : String) (s : State)
    (req : StartBenchmarkRequest) : Except String State :=
  match req.resolve cfg uuid with
  | .error message => .error message
  | .ok req =>
    if ∃ a ∈ s.attempt req.runId, ¬a.run.status.Terminal then
      .error "benchmark run already running"
    else
      .ok { s with
        runs := s.runs.insert req.runId s.attempts.length
        attempts := s.attempts ++
          [⟨req.newRun now, .running (executePhases req.runId req)⟩] }

/-- The critical section of `stop_benchmark` on the run it found. -/
def Attempt.stop (now : String) (a : Attempt) : Attempt :=
  { a with run := { a.run with
      cancelFlag := true, status := .stopped, currentPhase := "stopped", completedAt := now } }

/-- `stop_benchmark`, up to its publication. -/
def State.stopBenchmark (now : String) (s : State) (runId : String) : Except String State :=
  match s.runs.lookup runId with
  | none => .error "benchmark run not found"
  | some k =>
    match s.attempts[k]? with
    | none => .error "benchmark run not found"
    | some a =>
      if a.run.status = .completed ∨ a.run.status = .stopped then
        .error ("benchmark run already " ++ a.run.status.toString)
      else .ok { s with attempts := s.attempts.set k (a.stop now), stopping := k :: s.stopping }

def State.getRunStatus (s : State) (runId : String) : Except String BenchmarkRun :=
  match s.attempt runId with
  | none => .error "benchmark run not found"
  | some a => .ok a.run

/-- The assignment `stop_benchmark` publishes. -/
def BenchmarkRun.stopAssignment (run : BenchmarkRun) : BotAssignment :=
  ⟨run.runId, run.endpointUrl, 0, "stop", 0, 0, 0, 0, 0, []⟩

inductive Event where
  | start (req : StartBenchmarkRequest) (uuid now : String)
  | stop (runId now : String)
  /-- A stopper of attempt `k` publishes the stop. -/
  | publishStop (k : ℕ) (delivery : Delivery)
  /-- The executor of attempt `k` takes its next step. -/
  | run (k : ℕ) (env : Env)

/-- One step of the system. A call that throws changes nothing. -/
def step (cfg : Config) (s : State) : Event → Option State
  | .start req uuid now =>
    match s.startBenchmark cfg uuid now req with
    | .error _ => some s
    | .ok s' => some s'
  | .stop runId now =>
    match s.stopBenchmark now runId with
    | .error _ => some s
    | .ok s' => some s'
  | .publishStop k delivery =>
    match s.attempts[k]? with
    | none => none
    | some a =>
      if k ∈ s.stopping then
        some { s with
          stopping := s.stopping.erase k
          topic := s.topic ++ (delivery.log a.run.stopAssignment).map (Entry.mk k) }
      else none
  | .run k env =>
    match s.attempts[k]? with
    | none => none
    | some a =>
      match a.next env with
      | none => none
      | some (a', out) =>
        some { s with
          attempts := s.attempts.set k a'
          topic := s.topic ++ out.map (Entry.mk k) }

/-! ## What a step does -/

variable {cfg : Config} {s s' : State}

theorem State.startBenchmark_ok {req : StartBenchmarkRequest} {uuid now : String}
    (h : s.startBenchmark cfg uuid now req = .ok s') :
    ∃ r, req.resolve cfg uuid = .ok r ∧ (∀ a ∈ s.attempt r.runId, a.run.status.Terminal) ∧
      s' = { s with
        runs := s.runs.insert r.runId s.attempts.length
        attempts := s.attempts ++ [⟨r.newRun now, .running (executePhases r.runId r)⟩] } := by
  rw [State.startBenchmark] at h
  cases hr : req.resolve cfg uuid with
  | error message => rw [hr] at h; exact absurd h (by simp)
  | ok r =>
    rw [hr] at h
    dsimp only at h
    by_cases hrunning : ∃ a ∈ s.attempt r.runId, ¬a.run.status.Terminal
    · rw [if_pos hrunning] at h
      exact absurd h (by simp)
    · rw [if_neg hrunning] at h
      push Not at hrunning
      exact ⟨r, rfl, hrunning, (Except.ok.inj h).symm⟩

theorem step_start {req : StartBenchmarkRequest} {uuid now : String}
    (h : step cfg s (.start req uuid now) = some s') :
    s' = s ∨ s.startBenchmark cfg uuid now req = .ok s' := by
  rw [step] at h
  cases hstart : s.startBenchmark cfg uuid now req with
  | error message => rw [hstart] at h; exact Or.inl (Option.some_inj.mp h).symm
  | ok t => rw [hstart] at h; exact Or.inr (congrArg _ (Option.some_inj.mp h))

theorem State.stopBenchmark_ok {now runId : String} (h : s.stopBenchmark now runId = .ok s') :
    ∃ k a, s.runs.lookup runId = some k ∧ s.attempts[k]? = some a ∧
      ¬(a.run.status = .completed ∨ a.run.status = .stopped) ∧
      s' = { s with
        attempts := s.attempts.set k (a.stop now), stopping := k :: s.stopping } := by
  rw [State.stopBenchmark] at h
  cases hk : s.runs.lookup runId with
  | none => rw [hk] at h; exact absurd h (by simp)
  | some k =>
    rw [hk] at h
    dsimp only at h
    cases ha : s.attempts[k]? with
    | none => rw [ha] at h; exact absurd h (by simp)
    | some a =>
      rw [ha] at h
      dsimp only at h
      by_cases hended : a.run.status = .completed ∨ a.run.status = .stopped
      · rw [if_pos hended] at h
        exact absurd h (by simp)
      · rw [if_neg hended] at h
        exact ⟨k, a, rfl, ha, hended, (Except.ok.inj h).symm⟩

theorem step_stop {runId now : String} (h : step cfg s (.stop runId now) = some s') :
    s' = s ∨ s.stopBenchmark now runId = .ok s' := by
  rw [step] at h
  cases hstop : s.stopBenchmark now runId with
  | error message => rw [hstop] at h; exact Or.inl (Option.some_inj.mp h).symm
  | ok t => rw [hstop] at h; exact Or.inr (congrArg _ (Option.some_inj.mp h))

theorem step_publishStop {k : ℕ} {delivery : Delivery}
    (h : step cfg s (.publishStop k delivery) = some s') :
    ∃ a, s.attempts[k]? = some a ∧ k ∈ s.stopping ∧
      s' = { s with
        stopping := s.stopping.erase k
        topic := s.topic ++ (delivery.log a.run.stopAssignment).map (Entry.mk k) } := by
  rw [step] at h
  cases ha : s.attempts[k]? with
  | none => rw [ha] at h; exact absurd h (by simp)
  | some a =>
    rw [ha] at h
    dsimp only at h
    by_cases hk : k ∈ s.stopping
    · rw [if_pos hk] at h
      exact ⟨a, rfl, hk, (Option.some_inj.mp h).symm⟩
    · rw [if_neg hk] at h
      exact absurd h (by simp)

theorem step_run {k : ℕ} {env : Env} (h : step cfg s (.run k env) = some s') :
    ∃ a a' out, s.attempts[k]? = some a ∧ a.next env = some (a', out) ∧
      s' = { s with
        attempts := s.attempts.set k a', topic := s.topic ++ out.map (Entry.mk k) } := by
  rw [step] at h
  cases ha : s.attempts[k]? with
  | none => rw [ha] at h; exact absurd h (by simp)
  | some a =>
    rw [ha] at h
    dsimp only at h
    cases hnext : a.next env with
    | none => rw [hnext] at h; exact absurd h (by simp)
    | some r =>
      rw [hnext] at h
      exact ⟨a, r.1, r.2, rfl, hnext, (Option.some_inj.mp h).symm⟩

/-- **What a step does to one attempt.** It is the new one, or it was stopped, or its executor took
the step, or nothing happened to it. -/
theorem step_attempt {e : Event} {k : ℕ} {b : Attempt} (h : step cfg s e = some s')
    (hb : s'.attempts[k]? = some b) :
    s.attempts[k]? = some b ∨
    (s.attempts[k]? = none ∧ ∃ r now, b = ⟨r.newRun now, .running (executePhases r.runId r)⟩) ∨
    (∃ runId now a, e = .stop runId now ∧ s.runs.lookup runId = some k ∧
      s.attempts[k]? = some a ∧ ¬(a.run.status = .completed ∨ a.run.status = .stopped) ∧
      b = a.stop now) ∨
    ∃ env a out, e = .run k env ∧ s.attempts[k]? = some a ∧ a.next env = some (b, out) := by
  cases e with
  | start req uuid now =>
    rcases step_start h with rfl | hstart
    · exact Or.inl hb
    · obtain ⟨r, -, -, rfl⟩ := State.startBenchmark_ok hstart
      dsimp only at hb
      -- the new attempt is appended
      rw [List.getElem?_append] at hb
      split at hb
      · exact Or.inl hb
      · rename_i hk
        have hmem := List.mem_of_getElem? hb
        rw [List.mem_singleton] at hmem
        exact Or.inr (Or.inl ⟨List.getElem?_eq_none (Nat.le_of_not_lt hk), r, now, hmem⟩)
  | stop runId now =>
    rcases step_stop h with rfl | hstop
    · exact Or.inl hb
    · obtain ⟨j, a, hj, ha, hended, rfl⟩ := State.stopBenchmark_ok hstop
      dsimp only at hb
      rw [List.getElem?_set] at hb
      split at hb
      · rename_i hjk
        subst hjk
        rw [if_pos (List.getElem?_eq_some_iff.mp ha).1, Option.some_inj] at hb
        exact Or.inr (Or.inr (Or.inl ⟨runId, now, a, rfl, hj, ha, hended, hb.symm⟩))
      · exact Or.inl hb
  | publishStop j delivery =>
    obtain ⟨a, ha, hj, rfl⟩ := step_publishStop h
    exact Or.inl hb
  | run j env =>
    obtain ⟨a, a', out, ha, hnext, rfl⟩ := step_run h
    dsimp only at hb
    rw [List.getElem?_set] at hb
    split at hb
    · rename_i hjk
      subst hjk
      rw [if_pos (List.getElem?_eq_some_iff.mp ha).1, Option.some_inj] at hb
      exact Or.inr (Or.inr (Or.inr ⟨env, a, out, rfl, ha, hb ▸ hnext⟩))
    · exact Or.inl hb

theorem step_attempts_length {e : Event} (h : step cfg s e = some s') :
    s.attempts.length ≤ s'.attempts.length := by
  cases e with
  | start req uuid now =>
    rcases step_start h with rfl | hstart
    · rfl
    · obtain ⟨r, -, -, rfl⟩ := State.startBenchmark_ok hstart
      simp
  | stop runId now =>
    rcases step_stop h with rfl | hstop
    · rfl
    · obtain ⟨j, a, -, -, -, rfl⟩ := State.stopBenchmark_ok hstop
      simp
  | publishStop j delivery =>
    obtain ⟨a, -, -, rfl⟩ := step_publishStop h
    rfl
  | run j env =>
    obtain ⟨a, a', out, -, -, rfl⟩ := step_run h
    simp

/-- An attempt is never removed. -/
theorem step_exists_attempt {e : Event} {k : ℕ} {a : Attempt} (h : step cfg s e = some s')
    (ha : s.attempts[k]? = some a) : ∃ b, s'.attempts[k]? = some b :=
  ⟨_, List.getElem?_eq_getElem
    ((List.getElem?_eq_some_iff.mp ha).1.trans_le (step_attempts_length h))⟩

/-- The numbers in `runs` are those of attempts. -/
def State.Indexed (s : State) : Prop :=
  ∀ runId k, s.runs.lookup runId = some k → k < s.attempts.length

theorem step_indexed {e : Event} (h : s.Indexed) (hstep : step cfg s e = some s') :
    s'.Indexed := by
  have hmono : ∀ runId k, s.runs.lookup runId = some k → k < s'.attempts.length :=
    fun runId k hk ↦ (h runId k hk).trans_le (step_attempts_length hstep)
  cases e with
  | start req uuid now =>
    rcases step_start hstep with rfl | hstart
    · exact h
    · obtain ⟨r, -, -, rfl⟩ := State.startBenchmark_ok hstart
      intro runId k hk
      by_cases hid : runId = r.runId
      · subst hid
        rw [Finmap.lookup_insert, Option.some_inj] at hk
        simp [← hk]
      · rw [Finmap.lookup_insert_of_ne _ hid] at hk
        exact hmono runId k hk
  | stop runId now =>
    rcases step_stop hstep with rfl | hstop
    · exact h
    · obtain ⟨j, a, -, -, -, rfl⟩ := State.stopBenchmark_ok hstop
      exact hmono
  | publishStop j delivery =>
    obtain ⟨a, -, -, rfl⟩ := step_publishStop hstep
    exact hmono
  | run j env =>
    obtain ⟨a, a', out, -, -, rfl⟩ := step_run hstep
    exact hmono

/-- **Which steps change the run of an id**: those that start one when there is none going. -/
theorem step_lookup {e : Event} (runId : String) (h : step cfg s e = some s') :
    s'.runs.lookup runId = s.runs.lookup runId ∨
    ∃ req uuid now r, e = .start req uuid now ∧ req.resolve cfg uuid = .ok r ∧ r.runId = runId ∧
      ∀ a ∈ s.attempt runId, a.run.status.Terminal := by
  cases e with
  | start req uuid now =>
    rcases step_start h with rfl | hstart
    · exact Or.inl rfl
    · obtain ⟨r, hr, hover, rfl⟩ := State.startBenchmark_ok hstart
      by_cases hid : runId = r.runId
      · subst hid
        exact Or.inr ⟨req, uuid, now, r, rfl, hr, rfl, hover⟩
      · exact Or.inl (Finmap.lookup_insert_of_ne _ hid)
  | stop id now =>
    rcases step_stop h with rfl | hstop
    · exact Or.inl rfl
    · obtain ⟨j, a, -, -, -, rfl⟩ := State.stopBenchmark_ok hstop
      exact Or.inl rfl
  | publishStop j delivery =>
    obtain ⟨a, -, -, rfl⟩ := step_publishStop h
    exact Or.inl rfl
  | run j env =>
    obtain ⟨a, a', out, -, -, rfl⟩ := step_run h
    exact Or.inl rfl

/-- An executor that is not at its end can step. -/
theorem step_run_of_next (cfg : Config) {k : ℕ} {a b : Attempt} (env : Env)
    {out : List BotAssignment} (ha : s.attempts[k]? = some a) (hnext : a.next env = some (b, out)) :
    ∃ t, step cfg s (.run k env) = some t ∧ t.attempts[k]? = some b ∧
      t.topic = s.topic ++ out.map (Entry.mk k) := by
  refine ⟨_, by rw [step, ha]; dsimp only; rw [hnext], ?_, rfl⟩
  exact List.getElem?_set_self (List.getElem?_eq_some_iff.mp ha).1

end BenchmarkPlatform.Orchestrator
