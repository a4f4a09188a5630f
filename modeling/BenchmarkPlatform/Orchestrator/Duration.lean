import BenchmarkPlatform.Orchestrator.Run

/-!
# How long a run lasts

The phase table divides the requested time among the phases without remainder. The ramp does not
wait for its share: it waits two seconds between steps, as often as two seconds fit into the share,
and at least once. So a run that nothing disturbs lasts as long as requested exactly when the number
of seconds is a multiple of ten, provided that milliseconds and bots fit an `int`.

Overflow is followed by copies of `build_phases` and of the ramp in which every `int` operation is
checked; where they succeed they are the functions of `BenchmarkPlatform.Orchestrator.Run`.
-/

namespace BenchmarkPlatform.Orchestrator

open Lib

/-! ## Checked arithmetic -/

def InInt (n : ℤ) : Prop := -2 ^ 31 ≤ n ∧ n < 2 ^ 31

instance : DecidablePred InInt := fun n ↦ inferInstanceAs (Decidable (-2 ^ 31 ≤ n ∧ n < 2 ^ 31))

/-- The result of an `int` operation, `none` when it overflows. -/
def checkInt (n : ℤ) : Option ℤ := if InInt n then some n else none

theorem checkInt_of_inInt {n : ℤ} (h : InInt n) : checkInt n = some n := if_pos h

theorem checkInt_eq_some_iff {n m : ℤ} : checkInt n = some m ↔ InInt n ∧ n = m := by
  rw [checkInt, Option.ite_none_right_eq_some, Option.some_inj]

theorem toInt_of_inInt {n : ℤ} (h : InInt n) : toInt n = n := by
  obtain ⟨hlow, hhigh⟩ := h
  rw [toInt, Int.bmod_eq_of_le (by omega) (by omega)]

/-- `build_phases`, with every operation checked. -/
def checkedPhases (req : StartBenchmarkRequest) : Option (List PhaseSpec) := do
  let warmupBots := max 1 (← checkInt ⌈(req.botCount : ℚ) / 10⌉)
  let totalMs ← checkInt (req.durationSeconds * 1000)
  let warmupMs ← checkInt (totalMs.tdiv 10)
  let rampMs ← checkInt (totalMs.tdiv 5)
  let burstMs ← checkInt (totalMs.tdiv 5)
  let cooldownMs ← checkInt (totalMs.tdiv 10)
  let afterWarmup ← checkInt (totalMs - warmupMs)
  let afterRamp ← checkInt (afterWarmup - rampMs)
  let afterBurst ← checkInt (afterRamp - burstMs)
  let peakMs ← checkInt (afterBurst - cooldownMs)
  let burstBots ← checkInt (req.botCount * 2)
  return [⟨"warmup", .warmup, warmupBots, warmupMs, false⟩,
    ⟨"ramp", .ramping, req.botCount, rampMs, true⟩,
    ⟨"peak", .sustained, req.botCount, peakMs, false⟩,
    ⟨"burst", .sustained, burstBots, burstMs, false⟩,
    ⟨"cooldown", .cooldown, warmupBots, cooldownMs, false⟩]

/-- One round of the loop of `execute_ramp_phase`, with every operation checked. -/
def checkedRampStep (runId : String) (req : StartBenchmarkRequest) (phase : PhaseSpec)
    (warmupBots : ℤ) (botIncrement : ℚ) (step : ℕ) : Option (List Instr) := do
  let added ← checkInt (round (step * botIncrement))
  let currentBots ← checkInt (warmupBots + added)
  let elapsedMs ← checkInt (step * stepIntervalMs)
  let leftMs ← checkInt (phase.durationMs - elapsedMs)
  let _ ← checkInt (step + 1)
  return [.check, .publish (buildAssignment runId req "ramp" (max (min currentBots req.botCount) 1)
      (max stepIntervalMs leftMs))]
    ++ if step < totalSteps phase then [.wait stepIntervalMs] else []

/-- `execute_ramp_phase`, with every operation checked. -/
def checkedRampPhase (runId : String) (req : StartBenchmarkRequest) (phase : PhaseSpec) :
    Option (List Instr) := do
  let warmupBots := max 1 (← checkInt ⌈(req.botCount : ℚ) / 10⌉)
  let span ← checkInt (req.botCount - warmupBots)
  let rounds ← (List.range (totalSteps phase + 1)).mapM
    (checkedRampStep runId req phase warmupBots (span / totalSteps phase))
  return rounds.flatten

/-- What is checked is what is computed. -/
theorem eq_buildPhases_of_checkedPhases {req : StartBenchmarkRequest} {phases : List PhaseSpec}
    (h : checkedPhases req = some phases) :
    phases = buildPhases req ∧ InInt (req.durationSeconds * 1000) ∧ InInt (req.botCount * 2) := by
  simp only [checkedPhases, Option.bind_eq_bind, Option.pure_def, Option.bind_eq_some_iff,
    checkInt_eq_some_iff, Option.some_inj] at h
  obtain ⟨_, ⟨-, rfl⟩, _, ⟨htotal, rfl⟩, _, ⟨-, rfl⟩, _, ⟨-, rfl⟩, _, ⟨-, rfl⟩, _, ⟨-, rfl⟩,
    _, ⟨-, rfl⟩, _, ⟨-, rfl⟩, _, ⟨-, rfl⟩, _, ⟨-, rfl⟩, _, ⟨hbots, rfl⟩, rfl⟩ := h
  refine ⟨?_, htotal, hbots⟩
  rw [buildPhases, toInt_of_inInt htotal, toInt_of_inInt hbots]
  rfl

/-- A tenth of the bots, rounded up. -/
theorem ceil_tenth_mem {botCount : ℤ} (h : 0 < botCount) :
    0 < ⌈(botCount : ℚ) / 10⌉ ∧ ⌈(botCount : ℚ) / 10⌉ ≤ botCount := by
  have hpos : (0 : ℚ) < botCount := by exact_mod_cast h
  exact ⟨Int.ceil_pos.mpr (by positivity), Int.ceil_le.mpr (by linarith)⟩

/-- A tenth of a number of seconds, in milliseconds. -/
theorem tenth_ms {seconds : ℤ} (h : 0 < seconds) : (seconds * 1000).tdiv 10 = seconds * 100 := by
  rw [Int.tdiv_eq_ediv_of_nonneg (by omega)]
  omega

theorem fifth_ms {seconds : ℤ} (h : 0 < seconds) : (seconds * 1000).tdiv 5 = seconds * 200 := by
  rw [Int.tdiv_eq_ediv_of_nonneg (by omega)]
  omega

/-- The checks of `build_phases` that can fail are the two products. -/
theorem checkedPhases_eq_some {req : StartBenchmarkRequest} (hseconds : 0 < req.durationSeconds)
    (hbots : 0 < req.botCount) (hms : InInt (req.durationSeconds * 1000))
    (hburst : InInt (req.botCount * 2)) : checkedPhases req = some (buildPhases req) := by
  obtain ⟨hceil, hceil'⟩ := ceil_tenth_mem hbots
  have hwarmup : InInt ⌈(req.botCount : ℚ) / 10⌉ :=
    ⟨by omega, hceil'.trans_lt (lt_of_le_of_lt (by omega) hburst.2)⟩
  rw [buildPhases, checkedPhases, toInt_of_inInt hms, toInt_of_inInt hburst,
    checkInt_of_inInt hwarmup, checkInt_of_inInt hms, checkInt_of_inInt hburst]
  have hpos : 0 < req.durationSeconds * 1000 := by omega
  generalize req.durationSeconds * 1000 = totalMs at hms hpos
  have hint : ∀ n, 0 ≤ n → n ≤ totalMs → checkInt n = some n := fun n hn hle ↦
    checkInt_of_inInt ⟨by omega, hle.trans_lt hms.2⟩
  have htenth : totalMs.tdiv 10 = totalMs / 10 := Int.tdiv_eq_ediv_of_nonneg hpos.le
  have hfifth : totalMs.tdiv 5 = totalMs / 5 := Int.tdiv_eq_ediv_of_nonneg hpos.le
  have hafterWarmup := hint (totalMs - totalMs / 10) (by omega) (by omega)
  have hafterRamp := hint (totalMs - totalMs / 10 - totalMs / 5) (by omega) (by omega)
  have hafterBurst := hint (totalMs - totalMs / 10 - totalMs / 5 - totalMs / 5) (by omega)
    (by omega)
  have hpeak := hint (totalMs - totalMs / 10 - totalMs / 5 - totalMs / 5 - totalMs / 10) (by omega)
    (by omega)
  simp only [Option.bind_eq_bind, Option.bind_some, htenth, hfifth, hint (totalMs / 10) (by omega)
    (by omega), hint (totalMs / 5) (by omega) (by omega), hafterWarmup, hafterRamp, hafterBurst,
    hpeak]
  rfl

/-! ## The ramp, checked -/

theorem mapM_eq_some_map {α β : Type*} {f : α → Option β} {g : α → β} {l : List α}
    (h : ∀ a ∈ l, f a = some (g a)) : l.mapM f = some (l.map g) := by
  induction l with
  | nil => rfl
  | cons a l ih =>
    rw [List.forall_mem_cons] at h
    rw [List.mapM_cons, h.1, ih h.2]
    rfl

/-- What a step of the ramp adds is between nothing and everything. -/
theorem round_mem {span : ℤ} (hspan : 0 ≤ span) {n step : ℕ} (hn : 0 < n) (hstep : step ≤ n) :
    0 ≤ round ((step : ℚ) * (span / n)) ∧ round ((step : ℚ) * (span / n)) ≤ span := by
  have hspan' : (0 : ℚ) ≤ span := by exact_mod_cast hspan
  have hn' : (0 : ℚ) < n := by exact_mod_cast hn
  have hle : (step : ℚ) * (span / n) ≤ span := by
    rw [← mul_div_assoc, div_le_iff₀ hn', mul_comm]
    gcongr
  rw [round_eq]
  constructor
  · exact Int.floor_nonneg.mpr (by positivity)
  · rw [← Int.lt_add_one_iff, Int.floor_lt]
    push_cast
    linarith

/-- The steps of a ramp last as long as it, or a single interval. -/
theorem totalSteps_mem {phase : PhaseSpec} (h : 0 ≤ phase.durationMs) :
    0 < totalSteps phase ∧ totalSteps phase * stepIntervalMs ≤ max 2000 phase.durationMs := by
  have htdiv : phase.durationMs.tdiv 2000 = phase.durationMs / 2000 :=
    Int.tdiv_eq_ediv_of_nonneg h
  rw [totalSteps, stepIntervalMs, htdiv]
  omega

theorem checkedRampStep_eq_some (runId : String) {req : StartBenchmarkRequest}
    (hbots : 0 < req.botCount) (hburst : InInt (req.botCount * 2)) {phase : PhaseSpec}
    (hpos : 0 ≤ phase.durationMs) (hms : InInt phase.durationMs) {step : ℕ}
    (hstep : step ≤ totalSteps phase) :
    checkedRampStep runId req phase (warmupBots req)
        ((req.botCount - warmupBots req : ℤ) / totalSteps phase) step
      = some (rampStep runId req phase step) := by
  obtain ⟨hsteps, hsteps'⟩ := totalSteps_mem hpos
  obtain ⟨hceil, hceil'⟩ := ceil_tenth_mem hbots
  have hwarmup : 1 ≤ warmupBots req ∧ warmupBots req ≤ req.botCount := by
    rw [warmupBots]
    omega
  obtain ⟨hadded, hadded'⟩ := round_mem (sub_nonneg.mpr hwarmup.2) hsteps hstep
  have helapsed : (step : ℤ) * stepIntervalMs ≤ totalSteps phase * stepIntervalMs :=
    mul_le_mul_of_nonneg_right (by exact_mod_cast hstep) (by decide)
  have hinterval : stepIntervalMs = 2000 := rfl
  rw [hinterval] at hsteps' helapsed
  obtain ⟨hms, hms'⟩ := hms
  obtain ⟨hburst, hburst'⟩ := hburst
  have haddedInt : InInt (round ((step : ℚ)
      * ((req.botCount - warmupBots req : ℤ) / totalSteps phase))) := by
    rw [InInt]
    omega
  have hcurrentInt : InInt (warmupBots req + round ((step : ℚ)
      * ((req.botCount - warmupBots req : ℤ) / totalSteps phase))) := by
    rw [InInt]
    omega
  have helapsedInt : InInt (step * stepIntervalMs) := by
    rw [InInt, hinterval]
    omega
  have hleftInt : InInt (phase.durationMs - step * stepIntervalMs) := by
    rw [InInt, hinterval]
    omega
  have hnextInt : InInt ((step : ℤ) + 1) := by
    rw [InInt]
    omega
  rw [checkedRampStep, checkInt_of_inInt haddedInt]
  simp only [Option.bind_eq_bind, Option.bind_some, checkInt_of_inInt hcurrentInt,
    checkInt_of_inInt helapsedInt, checkInt_of_inInt hleftInt, checkInt_of_inInt hnextInt]
  rw [rampStep, rampAssignment]
  rfl

/-- **No check of the ramp fails.** -/
theorem checkedRampPhase_eq_some (runId : String) {req : StartBenchmarkRequest}
    (hbots : 0 < req.botCount) (hburst : InInt (req.botCount * 2)) {phase : PhaseSpec}
    (hpos : 0 ≤ phase.durationMs) (hms : InInt phase.durationMs) :
    checkedRampPhase runId req phase = some (executeRampPhase runId req phase) := by
  obtain ⟨hceil, hceil'⟩ := ceil_tenth_mem hbots
  obtain ⟨hburstLow, hburstHigh⟩ := hburst
  have hceilInt : InInt ⌈(req.botCount : ℚ) / 10⌉ := by
    rw [InInt]
    omega
  have hspan : InInt (req.botCount - warmupBots req) := by
    rw [InInt, warmupBots]
    omega
  have hrounds : (List.range (totalSteps phase + 1)).mapM (checkedRampStep runId req phase
      (warmupBots req) ((req.botCount - warmupBots req : ℤ) / totalSteps phase))
      = some ((List.range (totalSteps phase + 1)).map (rampStep runId req phase)) :=
    mapM_eq_some_map fun step hstep ↦ checkedRampStep_eq_some runId hbots
      ⟨hburstLow, hburstHigh⟩ hpos hms (Nat.lt_succ_iff.mp (List.mem_range.mp hstep))
  rw [warmupBots] at hspan hrounds
  rw [checkedRampPhase, checkInt_of_inInt hceilInt]
  simp only [Option.bind_eq_bind, Option.bind_some, checkInt_of_inInt hspan, hrounds]
  rw [executeRampPhase, List.flatMap_def]
  rfl

/-! ## The waits of a program -/

/-- How long an instruction waits; `wait_for` returns at once when the time is negative. -/
def Instr.waitMs : Instr → ℤ
  | .wait durationMs => max 0 durationMs
  | _ => 0

/-- How long a program waits. -/
def programMs (program : List Instr) : ℤ := (program.map Instr.waitMs).sum

@[simp] theorem programMs_nil : programMs [] = 0 := rfl

@[simp] theorem programMs_cons (i : Instr) (rest : List Instr) :
    programMs (i :: rest) = i.waitMs + programMs rest := rfl

@[simp] theorem programMs_append (program program' : List Instr) :
    programMs (program ++ program') = programMs program + programMs program' := by
  rw [programMs, List.map_append, List.sum_append, programMs, programMs]

/-- Each step of the ramp but the last is followed by a wait. -/
theorem programMs_rampStep (runId : String) (req : StartBenchmarkRequest) (phase : PhaseSpec)
    (step : ℕ) : programMs (rampStep runId req phase step)
      = if step < totalSteps phase then 2000 else 0 := by
  rw [rampStep, programMs_append]
  split_ifs <;> rfl

theorem programMs_executeRampPhase (runId : String) (req : StartBenchmarkRequest)
    (phase : PhaseSpec) :
    programMs (executeRampPhase runId req phase) = 2000 * totalSteps phase := by
  have hsteps : ∀ n ≤ totalSteps phase,
      programMs ((List.range n).flatMap (rampStep runId req phase)) = 2000 * n := by
    intro n hn
    induction n with
    | zero => rfl
    | succ n ih =>
      rw [List.range_succ, List.flatMap_append, programMs_append, ih (by omega),
        List.flatMap_singleton, programMs_rampStep, if_pos (by omega)]
      push_cast
      ring
  rw [executeRampPhase, List.range_succ, List.flatMap_append, programMs_append, hsteps _ le_rfl,
    List.flatMap_singleton, programMs_rampStep, if_neg (lt_irrefl _), add_zero]

/-- **What a run waits in all**: eight tenths of the requested time, and two seconds for each step
of the ramp. -/
theorem programMs_executePhases (runId : String) {req : StartBenchmarkRequest}
    (hseconds : 0 < req.durationSeconds) (hms : InInt (req.durationSeconds * 1000)) :
    programMs (executePhases runId req)
      = 800 * req.durationSeconds + 2000 * max 1 (req.durationSeconds / 10) := by
  have hsteps : (req.durationSeconds * 200).tdiv 2000 = req.durationSeconds / 10 := by
    rw [Int.tdiv_eq_ediv_of_nonneg (by omega)]
    omega
  rw [executePhases, buildPhases, toInt_of_inInt hms, tenth_ms hseconds, fifth_ms hseconds]
  simp only [List.flatMap_cons, List.flatMap_nil, executePhase, programMs_append, programMs_cons,
    programMs_nil, if_true, Bool.false_eq_true, if_false, programMs_executeRampPhase, totalSteps,
    stepIntervalMs, hsteps, Instr.waitMs]
  omega

/-! ## Undisturbed runs -/

variable {cfg : Config} {s s' : State} {k : ℕ}

/-- No stop of attempt `k` occurs, and every publication of it succeeds. -/
def Undisturbed (k : ℕ) (s : State) : Event → Prop
  | .stop runId _ => s.runs.lookup runId ≠ some k
  | .run j env => j = k → env.delivery = .sent
  | _ => True

/-- How long attempt `k` waits in a step. -/
def State.waitMs (k : ℕ) (s : State) : Event → ℤ
  | .run j _ =>
    if j = k then
      match (s.attempts[k]?).map Attempt.pc with
      | some (.running (i :: _)) => i.waitMs
      | _ => 0
    else 0
  | _ => 0

/-- How long attempt `k` waits in a run of the system. -/
def waitedMs (cfg : Config) (k : ℕ) : State → List Event → ℤ
  | _, [] => 0
  | s, e :: es => s.waitMs k e + (step cfg s e).elim 0 fun s' ↦ waitedMs cfg k s' es

/-- The attempt has not been cancelled and this is what is left of its program. -/
def State.HasLeft (s : State) (k : ℕ) (program : List Instr) : Prop :=
  ∃ run : BenchmarkRun, s.attempts[k]? = some ⟨run, .running program⟩ ∧ run.cancelFlag = false

theorem State.HasLeft.unique {program program' : List Instr} (h : s.HasLeft k program)
    (h' : s.HasLeft k program') : program = program' := by
  obtain ⟨run, ha, -⟩ := h
  obtain ⟨run', ha', -⟩ := h'
  rw [ha, Option.some_inj, Attempt.mk.injEq, ExecutorPc.running.injEq] at ha'
  exact ha'.2

/-- An instruction of an attempt that is not cancelled, and whose publications succeed, leads to the
next. -/
theorem Attempt.next_of_sent {run : BenchmarkRun} (hflag : run.cancelFlag = false) {env : Env}
    (hsent : env.delivery = .sent) (i : Instr) (rest : List Instr) : ∃ run' out,
      Attempt.next env ⟨run, .running (i :: rest)⟩ = some (⟨run', .running rest⟩, out) ∧
        run'.cancelFlag = false := by
  cases i with
  | check => exact ⟨run, [], by simp [Attempt.next, hflag], hflag⟩
  | updateRunPhase phase status => exact ⟨_, _, rfl, hflag⟩
  | publish assignment =>
    exact ⟨run, Delivery.sent.log assignment, by simp [Attempt.next, hsent], hflag⟩
  | wait durationMs => exact ⟨run, [], by simp [Attempt.next, hflag], hflag⟩
  | complete =>
    refine ⟨_, _, rfl, ?_⟩
    split_ifs
    · exact hflag
    · exact hflag

/-- **A step in an undisturbed run** takes from the program what it waits. -/
theorem step_hasLeft {program : List Instr} (h : s.HasLeft k program) {e : Event}
    (he : Undisturbed k s e) (hstep : step cfg s e = some s') :
    ∃ rest, s'.HasLeft k rest ∧ s.waitMs k e + programMs rest = programMs program := by
  obtain ⟨run, ha, hflag⟩ := h
  cases e with
  | start req uuid now =>
    rcases step_start hstep with rfl | hstart
    · exact ⟨program, ⟨run, ha, hflag⟩, zero_add _⟩
    · obtain ⟨r, -, -, rfl⟩ := State.startBenchmark_ok hstart
      have hkeep : (s.attempts ++ [⟨r.newRun now, .running (executePhases r.runId r)⟩])[k]?
          = some ⟨run, .running program⟩ := by
        rw [List.getElem?_append_left (List.getElem?_eq_some_iff.mp ha).1, ha]
      exact ⟨program, ⟨run, hkeep, hflag⟩, zero_add _⟩
  | stop runId now =>
    rcases step_stop hstep with rfl | hstop
    · exact ⟨program, ⟨run, ha, hflag⟩, zero_add _⟩
    · obtain ⟨j, a, hj, -, -, rfl⟩ := State.stopBenchmark_ok hstop
      have hne : j ≠ k := fun heq ↦ he (heq ▸ hj)
      exact ⟨program, ⟨run, (List.getElem?_set_ne hne).trans ha, hflag⟩, zero_add _⟩
  | publishStop j delivery =>
    obtain ⟨a, -, -, rfl⟩ := step_publishStop hstep
    exact ⟨program, ⟨run, ha, hflag⟩, zero_add _⟩
  | run j env =>
    obtain ⟨a, a', out, hj, hnext, rfl⟩ := step_run hstep
    rw [State.waitMs]
    by_cases hjk : j = k
    · subst hjk
      rw [ha, Option.some_inj] at hj
      subst hj
      cases program with
      | nil => cases hnext
      | cons i rest =>
        obtain ⟨run', out', hnext', hflag'⟩ := Attempt.next_of_sent hflag (he rfl) i rest
        rw [hnext, Option.some_inj, Prod.mk.injEq] at hnext'
        obtain ⟨rfl, rfl⟩ := hnext'
        have hset := List.getElem?_set_self (a := ⟨run', .running rest⟩)
          (List.getElem?_eq_some_iff.mp ha).1
        refine ⟨rest, ⟨run', hset, hflag'⟩, ?_⟩
        rw [if_pos rfl, ha]
        rfl
    · refine ⟨program, ⟨run, (List.getElem?_set_ne hjk).trans ha, hflag⟩, ?_⟩
      rw [if_neg hjk, zero_add]

/-- **An undisturbed run**: what it has waited and what is left to wait make up the program. -/
theorem exec_hasLeft {program : List Instr} {es : List Event} (h : s.HasLeft k program)
    (hguard : Guarded (step cfg) (Undisturbed k) s es) (hexec : exec (step cfg) s es = some s') :
    ∃ rest, s'.HasLeft k rest ∧ waitedMs cfg k s es + programMs rest = programMs program := by
  induction es generalizing s program with
  | nil =>
    obtain rfl := Option.some_inj.mp hexec
    exact ⟨program, h, zero_add _⟩
  | cons e es ih =>
    obtain ⟨t, ht, hrest⟩ := exec_cons_eq_some.mp hexec
    obtain ⟨middle, hmiddle, hsum⟩ := step_hasLeft h hguard.1 ht
    obtain ⟨rest, hleft, hsum'⟩ := ih hmiddle (hguard.2 t ht) hrest
    refine ⟨rest, hleft, ?_⟩
    rw [waitedMs, ht, Option.elim_some]
    linarith

/-- An attempt can run undisturbed to its end. -/
theorem exists_undisturbed (cfg : Config) {program : List Instr} (h : s.HasLeft k program) :
    ∃ es s', Guarded (step cfg) (Undisturbed k) s es ∧ exec (step cfg) s es = some s' ∧
      s'.HasLeft k [] := by
  induction program generalizing s with
  | nil => exact ⟨[], s, trivial, rfl, h⟩
  | cons i rest ih =>
    obtain ⟨run, ha, hflag⟩ := h
    have hsent : (⟨"", .sent⟩ : Env).delivery = .sent := rfl
    obtain ⟨run', out, hnext, hflag'⟩ := Attempt.next_of_sent hflag hsent i rest
    obtain ⟨t, ht, hattempt, -⟩ := step_run_of_next cfg ⟨"", .sent⟩ ha hnext
    obtain ⟨es, s', hguard, hexec, hleft⟩ := ih ⟨run', hattempt, hflag'⟩
    exact ⟨.run k ⟨"", .sent⟩ :: es, s', (guarded_cons ht).mpr ⟨fun _ ↦ rfl, hguard⟩,
      exec_cons_eq_some.mpr ⟨t, ht, hexec⟩, hleft⟩

/-! ## As long as requested -/

/-- The phases of a request are computed without overflow, none has a negative duration, and what
attempt `k` waits in an undisturbed run to its end is the requested time. -/
structure LastsAsRequested (cfg : Config) (s : State) (k : ℕ) (req : StartBenchmarkRequest) :
    Prop where
  phases : ∃ phases, checkedPhases req = some phases ∧ ∀ phase ∈ phases, 0 ≤ phase.durationMs ∧
    (phase.isRamp = true → ∃ program, checkedRampPhase req.runId req phase = some program)
  lasts : ∀ es s', Guarded (step cfg) (Undisturbed k) s es → exec (step cfg) s es = some s' →
    s'.HasLeft k [] → waitedMs cfg k s es = req.durationSeconds * 1000

theorem durationMs_mem {req : StartBenchmarkRequest} (hseconds : 0 < req.durationSeconds)
    (hms : InInt (req.durationSeconds * 1000)) {phase : PhaseSpec} (h : phase ∈ buildPhases req) :
    0 ≤ phase.durationMs ∧ InInt phase.durationMs := by
  rw [buildPhases, toInt_of_inInt hms, tenth_ms hseconds, fifth_ms hseconds] at h
  obtain ⟨hlow, hhigh⟩ := hms
  simp only [List.mem_cons, List.not_mem_nil, or_false] at h
  rcases h with rfl | rfl | rfl | rfl | rfl <;> rw [InInt] <;> dsimp only <;> omega

theorem lastsAsRequested_iff_of_hasLeft {req : StartBenchmarkRequest}
    (hseconds : 0 < req.durationSeconds) (hbots : 0 < req.botCount)
    (h : s.HasLeft k (executePhases req.runId req)) : LastsAsRequested cfg s k req ↔
      10 ∣ req.durationSeconds ∧ req.durationSeconds * 1000 < 2 ^ 31 ∧
        req.botCount * 2 < 2 ^ 31 := by
  -- an undisturbed run to the end waits what the program waits
  have hwaited : ∀ es s', Guarded (step cfg) (Undisturbed k) s es →
      exec (step cfg) s es = some s' → s'.HasLeft k [] →
      waitedMs cfg k s es = programMs (executePhases req.runId req) := by
    intro es s' hguard hexec hend
    obtain ⟨rest, hleft, hsum⟩ := exec_hasLeft h hguard hexec
    obtain rfl := hleft.unique hend
    rwa [programMs_nil, add_zero] at hsum
  constructor
  · rintro ⟨⟨phases, hphases, -⟩, hlasts⟩
    obtain ⟨-, hms, hburst⟩ := eq_buildPhases_of_checkedPhases hphases
    obtain ⟨es, s', hguard, hexec, hend⟩ := exists_undisturbed cfg h
    have htotal := hlasts es s' hguard hexec hend
    rw [hwaited es s' hguard hexec hend, programMs_executePhases _ hseconds hms] at htotal
    exact ⟨by omega, hms.2, hburst.2⟩
  · rintro ⟨hten, hms, hburst⟩
    have hmsInt : InInt (req.durationSeconds * 1000) := ⟨by omega, hms⟩
    have hburstInt : InInt (req.botCount * 2) := ⟨by omega, hburst⟩
    have hchecked := checkedPhases_eq_some hseconds hbots hmsInt hburstInt
    refine ⟨⟨buildPhases req, hchecked, ?_⟩, ?_⟩
    · intro phase hphase
      obtain ⟨hpos, hint⟩ := durationMs_mem hseconds hmsInt hphase
      exact ⟨hpos, fun _ ↦ ⟨_, checkedRampPhase_eq_some req.runId hbots hburstInt hpos hint⟩⟩
    · intro es s' hguard hexec hend
      rw [hwaited es s' hguard hexec hend, programMs_executePhases _ hseconds hmsInt]
      omega

theorem eq_of_ite_error {ε α : Type*} {c : Prop} [Decidable c] {e : ε} {a b : α}
    (h : (if c then .error e else .ok a) = Except.ok b) : b = a := by
  split_ifs at h
  exact (Except.ok.inj h).symm

/-- The request keeps its duration and its bots, which are positive; a rate is filled in. -/
structure StartBenchmarkRequest.Resolved (req : StartBenchmarkRequest) (cfg : Config)
    (r : StartBenchmarkRequest) : Prop where
  durationSeconds : r.durationSeconds = req.durationSeconds
  botCount : r.botCount = req.botCount
  seconds_pos : 0 < req.durationSeconds
  bots_pos : 0 < req.botCount
  ordersPerSecPerBot : r.profile.ordersPerSecPerBot =
    if req.profile.ordersPerSecPerBot ≤ 0 then cfg.defaultOrdersPerSec
    else req.profile.ordersPerSecPerBot

theorem StartBenchmarkRequest.resolve_ok {uuid : String} {req r : StartBenchmarkRequest}
    (h : req.resolve cfg uuid = .ok r) : req.Resolved cfg r := by
  rw [resolve] at h
  dsimp only at h
  -- the run id is filled in first
  obtain ⟨hbots, hseconds, hprofile⟩ :
      (if req.runId = "" then { req with runId := uuid } else req).botCount = req.botCount ∧
      (if req.runId = "" then { req with runId := uuid } else req).durationSeconds
        = req.durationSeconds ∧
      (if req.runId = "" then { req with runId := uuid } else req).profile = req.profile := by
    split_ifs <;> exact ⟨rfl, rfl, rfl⟩
  generalize (if req.runId = "" then { req with runId := uuid } else req) = req' at *
  by_cases hendpoint : req'.endpointUrl = ""
  · rw [if_pos hendpoint] at h
    cases h
  by_cases hbotCount : req'.botCount ≤ 0
  · rw [if_neg hendpoint, if_pos hbotCount] at h
    cases h
  by_cases hduration : req'.durationSeconds ≤ 0
  · rw [if_neg hendpoint, if_neg hbotCount, if_pos hduration] at h
    cases h
  rw [if_neg hendpoint, if_neg hbotCount, if_neg hduration] at h
  obtain rfl := eq_of_ite_error h
  refine ⟨hseconds, hbots, by omega, by omega, ?_⟩
  dsimp only
  rw [hprofile]
  split_ifs <;> rfl

/-- The attempt that a call of `start_benchmark` creates is at the beginning of its program. -/
theorem State.hasLeft_of_startBenchmark {uuid now : String} {req r : StartBenchmarkRequest}
    (hr : req.resolve cfg uuid = .ok r) (h : s.startBenchmark cfg uuid now req = .ok s') :
    s'.HasLeft s.attempts.length (executePhases r.runId r) := by
  obtain ⟨r', hr', -, rfl⟩ := startBenchmark_ok h
  rw [hr, Except.ok.injEq] at hr'
  subst hr'
  exact ⟨r.newRun now, List.getElem?_concat_length, rfl⟩

/-- **When a run lasts as long as requested**: when the number of seconds is a multiple of ten, and
milliseconds and bots of the burst fit an `int`. -/
theorem lastsAsRequested_iff {uuid now : String} {req r : StartBenchmarkRequest}
    (hr : req.resolve cfg uuid = .ok r) (h : s.startBenchmark cfg uuid now req = .ok s') :
    LastsAsRequested cfg s' s.attempts.length r ↔
      10 ∣ req.durationSeconds ∧ req.durationSeconds * 1000 < 2 ^ 31 ∧
        req.botCount * 2 < 2 ^ 31 := by
  obtain ⟨hseconds, hbots, hseconds', hbots', -⟩ := StartBenchmarkRequest.resolve_ok hr
  rw [lastsAsRequested_iff_of_hasLeft (by omega) (by omega) (State.hasLeft_of_startBenchmark hr h),
    hseconds, hbots]

/-- A request for five bots and this many seconds. -/
def requestOf (seconds : ℤ) : StartBenchmarkRequest :=
  ⟨"run", "submission", "http://exchange", 5, seconds, ⟨1 / 2, 1 / 4, 1 / 4, 10, ["BTC-USD"]⟩⟩

theorem requestOf_resolve {seconds : ℤ} (h : 0 < seconds) :
    (requestOf seconds).resolve ⟨10, []⟩ "" = .ok (requestOf seconds) := by
  have hratio : |(2 : ℚ)⁻¹ + 4⁻¹ + 4⁻¹ - 1| ≤ 100⁻¹ := by norm_num
  simpa [StartBenchmarkRequest.resolve, requestOf, h.not_ge] using hratio

/-- A first run can be started. -/
theorem exists_start_initial {uuid : String} (now : String) {req r : StartBenchmarkRequest}
    (hr : req.resolve cfg uuid = .ok r) :
    ∃ s', State.initial.startBenchmark cfg uuid now req = .ok s' := by
  have hnone : ¬∃ a ∈ State.initial.attempt r.runId, ¬a.run.status.Terminal := by
    simp [State.attempt, State.initial]
  rw [State.startBenchmark, hr]
  dsimp only
  rw [if_neg hnone]
  exact ⟨_, rfl⟩

/-- A minute can be requested. -/
theorem lastsAsRequested_minute : ∃ s',
    State.initial.startBenchmark ⟨10, []⟩ "" "" (requestOf 60) = .ok s' ∧
      (LastsAsRequested ⟨10, []⟩ s' 0 (requestOf 60) ↔
        10 ∣ (60 : ℤ) ∧ (60 : ℤ) * 1000 < 2 ^ 31 ∧ (5 : ℤ) * 2 < 2 ^ 31) := by
  have hr := requestOf_resolve (by decide : (0 : ℤ) < 60)
  obtain ⟨s', hs'⟩ := exists_start_initial "" hr
  exact ⟨s', hs', lastsAsRequested_iff hr hs'⟩

/-- A run of fifteen seconds lasts fourteen. -/
theorem not_lastsAsRequested : ∃ s',
    State.initial.startBenchmark ⟨10, []⟩ "" "" (requestOf 15) = .ok s' ∧
      ¬LastsAsRequested ⟨10, []⟩ s' 0 (requestOf 15) := by
  have hr := requestOf_resolve (by decide : (0 : ℤ) < 15)
  obtain ⟨s', hs'⟩ := exists_start_initial "" hr
  have hleft := State.hasLeft_of_startBenchmark hr hs'
  refine ⟨s', hs', ?_⟩
  intro hlasts
  have hten := ((lastsAsRequested_iff_of_hasLeft (by decide) (by decide) hleft).mp hlasts).1
  exact absurd hten (by decide)

end BenchmarkPlatform.Orchestrator
