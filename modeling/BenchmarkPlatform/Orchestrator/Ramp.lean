import BenchmarkPlatform.Orchestrator.Duration

/-!
# The shape of the ramp

Between the warmup and the peak the bots are increased in steps of two seconds, by rounding equal
parts of what is missing. The counts begin with those of the warmup, do not decrease and end with
those of the peak; and each assignment lasts until the next one is published.

`round` rounds halves up. What the ramp rounds is not negative, so that this is away from zero.
-/

namespace BenchmarkPlatform.Orchestrator

open Lib

/-! ## What a program publishes -/

def Instr.published : Instr → Option BotAssignment
  | .publish a => some a
  | _ => none

/-- What an executor publishes with a program that it is not cancelled in. -/
def published (program : List Instr) : List BotAssignment := program.filterMap Instr.published

theorem published_append (program program' : List Instr) :
    published (program ++ program') = published program ++ published program' :=
  List.filterMap_append

/-- How long a program waits before it publishes anything, if it does. -/
def untilPublished : List Instr → Option ℤ
  | [] => none
  | .publish _ :: _ => some 0
  | i :: rest => (untilPublished rest).map fun ms ↦ i.waitMs + ms

/-- Each assignment lasts at least until the next is published. -/
def Outlasting : List Instr → Prop
  | [] => True
  | .publish a :: rest => (∀ ms ∈ untilPublished rest, ms ≤ a.durationMs) ∧ Outlasting rest
  | _ :: rest => Outlasting rest

/-- A step of an executor, with what has been published so far. -/
def Attempt.nextLogged (s : Attempt × List BotAssignment) (env : Env) :
    Option (Attempt × List BotAssignment) :=
  (s.1.next env).map fun r ↦ (r.1, s.2 ++ r.2)

/-- An instruction is carried out when nothing intervenes. -/
theorem Attempt.next_of_running {a : Attempt} {i : Instr} {rest : List Instr} {env : Env}
    (hpc : a.pc = .running (i :: rest)) (hflag : a.run.cancelFlag = false)
    (hsent : env.delivery = .sent) : ∃ b, a.next env = some (b, i.published.toList) ∧
      b.pc = .running rest ∧ b.run.cancelFlag = false := by
  obtain ⟨run, pc⟩ := a
  have hpc : pc = .running (i :: rest) := hpc
  have hrun : run.cancelFlag = false := hflag
  subst hpc
  have hleft : (if run.cancelFlag then [] else rest) = rest := by
    rw [hrun]
    rfl
  cases i with
  | check => exact ⟨_, rfl, congrArg ExecutorPc.running hleft, hflag⟩
  | updateRunPhase phase status => exact ⟨_, rfl, rfl, hflag⟩
  | publish assignment =>
    refine ⟨⟨run, .running rest⟩, ?_, rfl, hflag⟩
    rw [Attempt.next]
    simp [hsent, Delivery.log, Instr.published]
  | wait durationMs => exact ⟨_, rfl, congrArg ExecutorPc.running hleft, hflag⟩
  | complete =>
    refine ⟨_, rfl, rfl, ?_⟩
    dsimp only
    split_ifs <;> exact hflag

/-- **An executor that is not cancelled publishes what its program publishes.** -/
theorem Attempt.exec_published (program : List Instr) (log : List BotAssignment)
    {rest : List Instr} {a : Attempt} {envs : List Env} (hpc : a.pc = .running (program ++ rest))
    (hflag : a.run.cancelFlag = false) (hsent : ∀ env ∈ envs, env.delivery = .sent)
    (hlength : envs.length = program.length) :
    ∃ b, exec Attempt.nextLogged (a, log) envs = some (b, log ++ published program) ∧
      b.pc = .running rest ∧ b.run.cancelFlag = false := by
  induction program generalizing a log envs with
  | nil =>
    rw [List.length_eq_zero_iff.mp hlength]
    exact ⟨a, by simp [published], hpc, hflag⟩
  | cons i program ih =>
    obtain ⟨env, envs, rfl⟩ := List.exists_cons_of_length_eq_add_one hlength
    rw [List.forall_mem_cons] at hsent
    obtain ⟨b, hnext, hpcb, hflagb⟩ := Attempt.next_of_running hpc hflag hsent.1
    obtain ⟨c, hexec, hpcc, hflagc⟩ := ih (log ++ i.published.toList) hpcb hflagb hsent.2
      (Nat.succ_inj.mp hlength)
    refine ⟨c, ?_, hpcc, hflagc⟩
    have hstep : Attempt.nextLogged (a, log) env = some (b, log ++ i.published.toList) := by
      rw [Attempt.nextLogged, hnext]
      rfl
    have hpublished : published (i :: program) = i.published.toList ++ published program := by
      rw [published, List.filterMap_cons]
      cases i.published <;> rfl
    rw [exec_cons_eq_some]
    refine ⟨_, hstep, ?_⟩
    rw [hexec, hpublished, List.append_assoc]

/-! ## The assignments of the ramp -/

section

variable (runId : String) (req : StartBenchmarkRequest) (phase : PhaseSpec)

theorem published_rampStep (step : ℕ) :
    published (rampStep runId req phase step) = [rampAssignment runId req phase step] := by
  rw [rampStep, published_append]
  split_ifs <;> rfl

theorem published_executeRampPhase : published (executeRampPhase runId req phase)
    = (List.range (totalSteps phase + 1)).map (rampAssignment runId req phase) := by
  rw [executeRampPhase]
  induction List.range (totalSteps phase + 1) with
  | nil => rfl
  | cons step steps ih =>
    rw [List.flatMap_cons, published_append, published_rampStep, ih]
    rfl

/-- Every step of the ramp publishes at once and waits for no longer than its assignment lasts. -/
theorem outlasting_flatMap_rampStep (steps : List ℕ) :
    (∀ ms ∈ untilPublished (steps.flatMap (rampStep runId req phase)), ms = 0) ∧
      Outlasting (steps.flatMap (rampStep runId req phase)) := by
  induction steps with
  | nil => exact ⟨by simp [untilPublished], trivial⟩
  | cons step steps ih =>
    have hduration : stepIntervalMs ≤ (rampAssignment runId req phase step).durationMs :=
      le_max_left _ _
    obtain ⟨huntil, hrest⟩ := ih
    rw [List.flatMap_cons, rampStep, List.append_assoc]
    refine ⟨by simp [untilPublished, Instr.waitMs], ?_, ?_⟩
    · intro ms hms
      refine le_trans ?_ hduration
      split_ifs at hms with hstep
      · obtain ⟨later, hlater, rfl⟩ := Option.mem_map.mp hms
        rw [huntil later hlater]
        exact le_refl _
      · rw [huntil ms hms]
        decide
    · split_ifs
      · exact hrest
      · exact hrest

end

/-! ## The counts -/

theorem round_mono_rat {x y : ℚ} (h : x ≤ y) : round x ≤ round y := by
  rw [round_eq, round_eq]
  exact Int.floor_mono (add_le_add_left h _)

theorem totalSteps_pos (phase : PhaseSpec) : 0 < totalSteps phase := by
  rw [totalSteps]
  omega

variable {runId : String} {req : StartBenchmarkRequest} {phase : PhaseSpec}

theorem warmupBots_mem (hbots : 1 ≤ req.botCount) :
    1 ≤ warmupBots req ∧ warmupBots req ≤ req.botCount := by
  obtain ⟨hpos, hle⟩ := ceil_tenth_mem hbots
  rw [warmupBots]
  omega

/-- Neither bound is reached before it is due, so that no count is clamped. -/
theorem rampAssignment_botCount (hbots : 1 ≤ req.botCount) {step : ℕ}
    (hstep : step ≤ totalSteps phase) :
    (rampAssignment runId req phase step).botCount = warmupBots req
        + round ((step : ℚ) * ((req.botCount - warmupBots req : ℤ) / totalSteps phase)) ∧
      1 ≤ (rampAssignment runId req phase step).botCount ∧
      (rampAssignment runId req phase step).botCount ≤ req.botCount := by
  obtain ⟨hwarmup, hwarmup'⟩ := warmupBots_mem hbots
  obtain ⟨hadded, hadded'⟩ := round_mem (sub_nonneg.mpr hwarmup') (totalSteps_pos phase) hstep
  rw [rampAssignment, buildAssignment]
  dsimp only
  omega

theorem rampAssignment_botCount_mono (hbots : 1 ≤ req.botCount) {step step' : ℕ}
    (hle : step ≤ step') (hstep : step' ≤ totalSteps phase) :
    (rampAssignment runId req phase step).botCount
      ≤ (rampAssignment runId req phase step').botCount := by
  rw [(rampAssignment_botCount hbots (hle.trans hstep)).1, (rampAssignment_botCount hbots hstep).1]
  have hspan : (0 : ℚ) ≤ (req.botCount - warmupBots req : ℤ) := by
    exact_mod_cast sub_nonneg.mpr (warmupBots_mem hbots).2
  have hincrement : (0 : ℚ) ≤ (req.botCount - warmupBots req : ℤ) / totalSteps phase :=
    div_nonneg hspan (Nat.cast_nonneg _)
  have hsteps : (step : ℚ) ≤ step' := by exact_mod_cast hle
  exact Int.add_le_add_left (round_mono_rat (mul_le_mul_of_nonneg_right hsteps hincrement)) _

theorem rampAssignment_zero (hbots : 1 ≤ req.botCount) :
    (rampAssignment runId req phase 0).botCount = warmupBots req := by
  rw [(rampAssignment_botCount hbots (Nat.zero_le _)).1, Nat.cast_zero, zero_mul, round_zero,
    add_zero]

theorem rampAssignment_last (hbots : 1 ≤ req.botCount) :
    (rampAssignment runId req phase (totalSteps phase)).botCount = req.botCount := by
  have hsteps : (totalSteps phase : ℚ) ≠ 0 := Nat.cast_ne_zero.mpr (totalSteps_pos phase).ne'
  rw [(rampAssignment_botCount hbots le_rfl).1, mul_div_cancel₀ _ hsteps, round_intCast]
  omega

/-- **The shape of the ramp.** The counts begin with that of the warmup, do not decrease, stay
between one bot and all, and end with all; and each assignment lasts until the next is published.
They are those of an executor that carries out the ramp. -/
theorem ramp_shape (runId : String) {req : StartBenchmarkRequest} (hbots : 1 ≤ req.botCount)
    (phase : PhaseSpec) :
    let ramp := executeRampPhase runId req phase
    let counts := (published ramp).map BotAssignment.botCount
    counts.head? = some (max 1 ⌈(req.botCount : ℚ) / 10⌉) ∧ counts.Pairwise (· ≤ ·) ∧
      (∀ n ∈ counts, 1 ≤ n ∧ n ≤ req.botCount) ∧ counts.getLast? = some req.botCount ∧
      Outlasting ramp ∧
      ∀ rest (a : Attempt) envs, a.pc = .running (ramp ++ rest) → a.run.cancelFlag = false →
        (∀ env ∈ envs, env.delivery = .sent) → envs.length = ramp.length →
        ∃ b, exec Attempt.nextLogged (a, []) envs = some (b, published ramp) ∧
          b.pc = .running rest := by
  intro ramp counts
  have hcounts : counts = (List.range (totalSteps phase + 1)).map
      fun step ↦ (rampAssignment runId req phase step).botCount := by
    rw [show counts = (published ramp).map BotAssignment.botCount from rfl,
      show ramp = executeRampPhase runId req phase from rfl, published_executeRampPhase,
      List.map_map]
    rfl
  rw [hcounts]
  refine ⟨?_, ?_, ?_, ?_, (outlasting_flatMap_rampStep runId req phase _).2, ?_⟩
  · rw [List.head?_map, List.head?_range, if_neg (Nat.succ_ne_zero _)]
    exact congrArg some (rampAssignment_zero hbots)
  · rw [List.pairwise_map]
    refine List.pairwise_lt_range.imp_of_mem fun _ hstep hlt ↦ ?_
    exact rampAssignment_botCount_mono hbots hlt.le (Nat.lt_succ_iff.mp (List.mem_range.mp hstep))
  · intro n hn
    obtain ⟨step, hstep, rfl⟩ := List.mem_map.mp hn
    exact (rampAssignment_botCount hbots (Nat.lt_succ_iff.mp (List.mem_range.mp hstep))).2
  · rw [List.range_succ, List.map_append, List.map_singleton, List.getLast?_concat]
    exact congrArg some (rampAssignment_last hbots)
  · intro rest a envs hpc hflag hsent hlength
    obtain ⟨b, hexec, hpcb, -⟩ := Attempt.exec_published ramp [] hpc hflag hsent hlength
    exact ⟨b, hexec, hpcb⟩

/-- A run of half a minute with 25 bots. -/
def rampRequest : StartBenchmarkRequest :=
  ⟨"run", "sub", "http://sut", 25, 30, ⟨6 / 10, 3 / 10, 1 / 10, 5, ["AAPL"]⟩⟩

/-- The ramp of `rampRequest`. -/
def rampPhase : PhaseSpec := ⟨"ramp", .ramping, 25, 6000, true⟩

theorem rampRequest_last :
    ((published (executeRampPhase "run" rampRequest rampPhase)).map
      BotAssignment.botCount).getLast? = some 25 :=
  (ramp_shape "run" (by decide) rampPhase).2.2.2.1

end BenchmarkPlatform.Orchestrator
