import BenchmarkPlatform.Orchestrator.Run

/-!
# Terminal statuses

A run ends `completed`, `stopped` or `failed`. `start_benchmark` takes a run in one of these for
over, and the end of `execute_phases` leaves a stopped or failed run alone. But the executor reads
the cancel flag and writes the status in separate steps, so a stop can fall between the two and be
overwritten.

`InTime` is the condition under which it does not: a stop is accepted only when the executor is not
about to write a status and the run has not failed, and no publication of a stopped run throws.
-/

namespace BenchmarkPlatform.Orchestrator

open Lib

variable {cfg : Config} {s s' : State} {k : ℕ}

/-! ## Programs -/

/-- The program after `Instr.complete`. -/
def idleProgram : List Instr := [.updateRunPhase "idle" .completed]

/-- The shape of what an executor has left: no phase has a terminal status, each publication is
followed by a look at the cancel flag, and the guarded block is followed by `idleProgram`. -/
def Paced : List Instr → Prop
  | [] => True
  | .check :: rest => Paced rest
  | .updateRunPhase _ status :: rest => ¬status.Terminal ∧ Paced rest
  | .publish _ :: rest => Pauses rest ∧ Paced rest
  | .wait _ :: rest => Paced rest
  | .complete :: rest => rest = idleProgram

theorem paced_flatMap_rampStep (runId : String) (req : StartBenchmarkRequest) (phase : PhaseSpec)
    (steps : List ℕ) {rest : List Instr} (hpauses : Pauses rest) (hpaced : Paced rest) :
    Pauses (steps.flatMap (rampStep runId req phase) ++ rest) ∧
      Paced (steps.flatMap (rampStep runId req phase) ++ rest) := by
  induction steps with
  | nil => exact ⟨hpauses, hpaced⟩
  | cons n steps ih =>
    rw [List.flatMap_cons, rampStep, List.append_assoc, List.append_assoc]
    refine ⟨trivial, ?_⟩
    by_cases hn : n < totalSteps phase
    · rw [if_pos hn]
      exact ⟨trivial, ih.2⟩
    · rw [if_neg hn]
      exact ih

theorem paced_executePhases (runId : String) (req : StartBenchmarkRequest) :
    Paced (executePhases runId req) := by
  simp only [executePhases, buildPhases, executePhase, executeRampPhase, List.flatMap_cons,
    List.flatMap_nil, List.append_nil, List.append_assoc, List.cons_append, List.nil_append,
    if_true, Bool.false_eq_true, if_false]
  refine ⟨by decide, trivial, by decide, (paced_flatMap_rampStep runId req _ _ ?_ ?_).2⟩
  · trivial
  · exact ⟨by decide, trivial, by decide, trivial, by decide, trivial, rfl⟩

/-! ## The condition -/

/-- The next step writes the status, whatever the cancel flag says. -/
def ExecutorPc.Committed : ExecutorPc → Prop
  | .running (.updateRunPhase _ _ :: _) => True
  | .running (.complete :: _) => True
  | .failing _ _ => True
  | .running _ => False

def ExecutorPc.Publishing : ExecutorPc → Prop
  | .running (.publish _ :: _) => True
  | _ => False

theorem ExecutorPc.Publishing.exists_eq {pc : ExecutorPc} (h : pc.Publishing) :
    ∃ x rest, pc = .running (.publish x :: rest) := by
  cases pc with
  | failing phase error => exact h.elim
  | running p =>
    cases p with
    | nil => exact h.elim
    | cons i rest =>
      cases i with
      | publish x => exact ⟨x, rest, rfl⟩
      | _ => exact h.elim

/-- A stop is refused or comes neither late nor after a failure, and publications of a stopped run
succeed. -/
def InTime (s : State) : Event → Prop
  | .stop runId _ => ∀ a ∈ s.attempt runId, a.run.status = .completed ∨ a.run.status = .stopped ∨
      (a.run.status ≠ .failed ∧ ¬a.pc.Committed)
  | .run k env => ∀ a ∈ s.attempts[k]?, a.run.cancelFlag = true → a.pc.Publishing →
      env.delivery = .sent
  | _ => True

/-- The status of a run object. -/
def State.status (s : State) (k : ℕ) : Option RunStatus := s.attempts[k]?.map fun a ↦ a.run.status

/-- The run objects that were over have the status they had. -/
def State.Keeps (s s' : State) : Prop :=
  ∀ k status, s.status k = some status → status.Terminal → s'.status k = some status

/-! ## One attempt -/

/-- What an attempt has left to do, by its status. -/
def Attempt.Sound (a : Attempt) : Prop :=
  match a.run.status with
  | .failed => a.pc = .running []
  | .completed => a.pc = .running [] ∨ a.pc = .running idleProgram
  | .stopped => a.run.cancelFlag = true ∧ ∃ p, a.pc = .running p ∧ Paced p ∧ ¬a.pc.Committed
  | _ => a.run.cancelFlag = false ∧ ∀ p, a.pc = .running p → Paced p

theorem Attempt.sound_of_not_terminal {a : Attempt} (hstatus : ¬a.run.status.Terminal) :
    a.Sound ↔ a.run.cancelFlag = false ∧ ∀ p, a.pc = .running p → Paced p := by
  rw [Attempt.Sound]
  cases h : a.run.status <;> simp_all [RunStatus.Terminal]

theorem Pauses.not_committed {p : List Instr} (h : Pauses p) :
    ¬(ExecutorPc.running p).Committed := by
  rintro hp
  cases p with
  | nil => exact h
  | cons i p => cases i <;> first | exact h | exact hp

/-- A stopped run only comes to its next look at the flag, and leaves. -/
theorem Attempt.next_of_stopped {a b : Attempt} {env : Env} {out : List BotAssignment}
    (h : a.Sound) (hstatus : a.run.status = .stopped)
    (hsent : a.pc.Publishing → env.delivery = .sent) (hnext : a.next env = some (b, out)) :
    b.Sound ∧ b.run.status = .stopped := by
  obtain ⟨run, pc⟩ := a
  rw [Attempt.Sound] at h ⊢
  dsimp only at hstatus h hsent
  rw [hstatus] at h
  obtain ⟨hflag, p, rfl, hpaced, hcommitted⟩ := h
  cases p with
  | nil => exact absurd hnext (by simp [Attempt.next])
  | cons i rest =>
    cases i with
    | check | wait _ =>
      simp only [Attempt.next, hflag, if_true, Option.some_inj, Prod.mk.injEq] at hnext
      obtain ⟨rfl, -⟩ := hnext
      dsimp only
      rw [hstatus]
      exact ⟨⟨hflag, [], rfl, trivial, fun hc ↦ hc⟩, rfl⟩
    -- an executor about to write its status is not stopped in time
    | updateRunPhase _ _ | complete => exact absurd trivial hcommitted
    | publish assignment =>
      simp only [Attempt.next, hsent trivial, Option.some_inj, Prod.mk.injEq] at hnext
      obtain ⟨rfl, -⟩ := hnext
      dsimp only
      rw [hstatus]
      exact ⟨⟨hflag, rest, rfl, hpaced.2, hpaced.1.not_committed⟩, rfl⟩

/-- A run that is not over goes on, fails or completes. -/
theorem Attempt.next_of_not_terminal {a b : Attempt} {env : Env} {out : List BotAssignment}
    (h : a.Sound) (hstatus : ¬a.run.status.Terminal) (hnext : a.next env = some (b, out)) :
    b.Sound := by
  rw [Attempt.sound_of_not_terminal hstatus] at h
  obtain ⟨hflag, hpaced⟩ := h
  obtain ⟨run, pc⟩ := a
  dsimp only at hflag hpaced hstatus
  cases pc with
  | failing phase error =>
    obtain ⟨rfl, -⟩ := Prod.mk.inj (Option.some.inj hnext)
    rfl
  | running p =>
    have hpaced := hpaced p rfl
    cases p with
    | nil => exact absurd hnext (by simp [Attempt.next])
    | cons i rest =>
      cases i with
      | check | wait _ =>
        obtain ⟨rfl, -⟩ := Prod.mk.inj (Option.some.inj hnext)
        refine (Attempt.sound_of_not_terminal hstatus).mpr ⟨hflag, fun q hq ↦ ?_⟩
        rw [hflag] at hq
        exact ExecutorPc.running.inj hq ▸ hpaced
      | updateRunPhase phase status =>
        obtain ⟨rfl, -⟩ := Prod.mk.inj (Option.some.inj hnext)
        exact (Attempt.sound_of_not_terminal hpaced.1).mpr
          ⟨hflag, fun q hq ↦ ExecutorPc.running.inj hq ▸ hpaced.2⟩
      | publish assignment =>
        obtain ⟨rfl, -⟩ := Prod.mk.inj (Option.some.inj hnext)
        refine (Attempt.sound_of_not_terminal hstatus).mpr ⟨hflag, fun q hq ↦ ?_⟩
        cases hd : env.delivery with
        | sent =>
          rw [hd] at hq
          exact ExecutorPc.running.inj hq ▸ hpaced.2
        | threw error reached =>
          rw [hd] at hq
          exact absurd hq (by simp)
      | complete =>
        -- the guard of the source on the last write
        have hguard : run.status ≠ .stopped ∧ run.status ≠ .failed :=
          ⟨fun hs ↦ hstatus (Or.inr (Or.inl hs)), fun hs ↦ hstatus (Or.inr (Or.inr hs))⟩
        obtain ⟨rfl, -⟩ := Prod.mk.inj (Option.some.inj hnext)
        rw [if_pos hguard]
        exact Or.inr (congrArg _ hpaced)

/-- **A timely step of an executor** writes no status over a terminal one. -/
theorem Attempt.Sound.next {a b : Attempt} {env : Env} {out : List BotAssignment} (h : a.Sound)
    (hsent : a.run.cancelFlag = true → a.pc.Publishing → env.delivery = .sent)
    (hnext : a.next env = some (b, out)) :
    b.Sound ∧ (a.run.status.Terminal → b.run.status = a.run.status) := by
  by_cases hstatus : a.run.status.Terminal
  -- completed: the executor has left or leaves; stopped; failed: it has left
  · rcases hstatus with hstatus | hstatus | hstatus
    · have hpc := h
      rw [Attempt.Sound, hstatus] at hpc
      obtain ⟨run, pc⟩ := a
      dsimp only at hpc hstatus
      rcases hpc with rfl | rfl
      · exact absurd hnext (by simp [Attempt.next])
      · obtain ⟨rfl, -⟩ := Prod.mk.inj (Option.some.inj hnext)
        exact ⟨Or.inl rfl, fun _ ↦ hstatus.symm⟩
    · have hflag : a.run.cancelFlag = true := by
        rw [Attempt.Sound, hstatus] at h
        exact h.1
      obtain ⟨hb, hstopped⟩ := Attempt.next_of_stopped h hstatus (hsent hflag) hnext
      exact ⟨hb, fun _ ↦ hstopped.trans hstatus.symm⟩
    · obtain ⟨run, pc⟩ := a
      rw [Attempt.Sound, hstatus] at h
      have hpc : pc = .running [] := h
      subst hpc
      exact absurd hnext (by simp [Attempt.next])
  · exact ⟨Attempt.next_of_not_terminal h hstatus hnext, fun hterminal ↦ absurd hterminal hstatus⟩

/-- **A timely stop** finds the executor before a look at the flag or before a publication. -/
theorem Attempt.Sound.stop {a : Attempt} (h : a.Sound) (now : String)
    (hended : ¬(a.run.status = .completed ∨ a.run.status = .stopped))
    (htime : a.run.status ≠ .failed ∧ ¬a.pc.Committed) : (a.stop now).Sound := by
  refine ⟨rfl, ?_⟩
  rw [Attempt.sound_of_not_terminal (by grind [RunStatus.Terminal])] at h
  obtain ⟨run, pc⟩ := a
  cases pc with
  | failing phase error => exact absurd trivial htime.2
  | running p => exact ⟨p, rfl, h.2 p rfl, htime.2⟩

/-! ## All attempts -/

def State.Sound (s : State) : Prop := ∀ (k : ℕ) (a : Attempt), s.attempts[k]? = some a → a.Sound

theorem step_sound {e : Event} (hsound : s.Sound) (htime : InTime s e)
    (hstep : step cfg s e = some s') : s'.Sound := by
  intro k b hb
  rcases step_attempt hstep hb with
    ha | ⟨-, r, now, rfl⟩ | ⟨runId, now, a, rfl, hk, ha, hended, rfl⟩
    | ⟨env, a, out, rfl, ha, hnext⟩
  · exact hsound k b ha
  · exact ⟨rfl, fun p hp ↦ ExecutorPc.running.inj hp ▸ paced_executePhases _ _⟩
  · have hattempt : s.attempt runId = some a := by rw [State.attempt, hk]; exact ha
    refine (hsound k a ha).stop now hended ?_
    rcases htime a hattempt with h | h | h
    · exact absurd (Or.inl h) hended
    · exact absurd (Or.inr h) hended
    · exact h
  · exact ((hsound k a ha).next (htime a ha) hnext).1

theorem step_keeps {e : Event} (hsound : s.Sound) (htime : InTime s e)
    (hstep : step cfg s e = some s') : s.Keeps s' := by
  intro k status hk hterminal
  obtain ⟨a, ha, rfl⟩ := Option.map_eq_some_iff.mp hk
  obtain ⟨b, hb⟩ := step_exists_attempt hstep ha
  rw [State.status, hb, Option.map_some, Option.some_inj]
  rcases step_attempt hstep hb with hb | ⟨hnone, -⟩ | ⟨runId, now, a', rfl, hk, ha', hended, rfl⟩
    | ⟨env, a', out, rfl, ha', hnext⟩
  · rw [ha, Option.some_inj] at hb
    rw [hb]
  · rw [ha] at hnone
    exact absurd hnone (by simp)
  · rw [ha, Option.some_inj] at ha'
    subst ha'
    have hattempt : s.attempt runId = some a := by rw [State.attempt, hk]; exact ha
    have := htime a hattempt
    grind [RunStatus.Terminal]
  · rw [ha, Option.some_inj] at ha'
    subst ha'
    exact ((hsound k a ha).next (htime a ha) hnext).2 hterminal

theorem State.Keeps.trans {t : State} (h : s.Keeps t) (h' : t.Keeps s') : s.Keeps s' :=
  fun k status hk hterminal ↦ h' k status (h k status hk hterminal) hterminal

/-- **Timely runs** keep terminal statuses. -/
theorem run_keeps {es : List Event} (hsound : s.Sound) (htime : Guarded (step cfg) InTime s es)
    (hexec : exec (step cfg) s es = some s') : s'.Sound ∧ s.Keeps s' :=
  htime.invariant (P := fun t ↦ t.Sound ∧ s.Keeps t)
    (fun _ _ _ h ht hstep ↦
      ⟨step_sound h.1 ht hstep, h.2.trans (step_keeps h.1 ht hstep)⟩)
    ⟨hsound, fun _ _ h _ ↦ h⟩ hexec

theorem State.sound_initial : State.initial.Sound := fun k a ha ↦ by simp [State.initial] at ha

/-! ## Statuses that do not last -/

theorem State.not_keeps {a b : Attempt} (status status' : RunStatus)
    (ha : s.attempts[k]? = some a) (hstatus : a.run.status = status) (hterminal : status.Terminal)
    (hb : s'.attempts[k]? = some b) (hstatus' : b.run.status = status') (hne : status' ≠ status) :
    ¬s.Keeps s' := by
  intro hkeeps
  have h := hkeeps k status (by rw [State.status, ha, Option.map_some, hstatus]) hterminal
  rw [State.status, hb, Option.map_some, hstatus', Option.some_inj] at h
  exact hne h

/-- A stopped run whose publication has thrown goes on to fail. -/
theorem State.overwritten_of_failing (cfg : Config) {run : BenchmarkRun} {phase error : String}
    (ha : s.attempts[k]? = some ⟨run, .failing phase error⟩) (hstatus : run.status = .stopped) :
    ∃ es s', exec (step cfg) s es = some s' ∧ ¬s.Keeps s' := by
  obtain ⟨t, hstep, ht, -⟩ := step_run_of_next cfg ⟨"", .sent⟩ ha rfl
  refine ⟨[.run k ⟨"", .sent⟩], t, by rw [exec_cons, hstep]; rfl, ?_⟩
  exact State.not_keeps .stopped .failed ha hstatus (by decide) ht rfl (by decide)

/-- **Late stops are overwritten.** -/
theorem State.overwritten_of_committed (cfg : Config) {a : Attempt} {now : String} (h : a.Sound)
    (hterminal : ¬a.run.status.Terminal) (hcommitted : a.pc.Committed)
    (ha : s.attempts[k]? = some (a.stop now)) :
    ∃ es s', exec (step cfg) s es = some s' ∧ ¬s.Keeps s' := by
  have hpaced := ((Attempt.sound_of_not_terminal hterminal).mp h).2
  obtain ⟨run, pc⟩ := a
  cases pc with
  | failing phase error => exact State.overwritten_of_failing cfg ha rfl
  | running p =>
    have hpaced := hpaced p rfl
    match p with
    | .updateRunPhase phase status :: rest =>
      obtain ⟨t, hstep, ht, -⟩ := step_run_of_next cfg ⟨"", .sent⟩ ha rfl
      refine ⟨[.run k ⟨"", .sent⟩], t, by rw [exec_cons, hstep]; rfl, ?_⟩
      refine State.not_keeps .stopped status ha rfl (by decide) ht rfl ?_
      rintro rfl
      exact hpaced.1 (by decide)
    | .complete :: rest =>
      have hrest : rest = idleProgram := hpaced
      subst hrest
      obtain ⟨t, hstep, ht, -⟩ := step_run_of_next cfg ⟨"", .sent⟩ ha rfl
      obtain ⟨u, hstep', hu, -⟩ := step_run_of_next cfg ⟨"", .sent⟩ ht rfl
      refine ⟨[.run k ⟨"", .sent⟩, .run k ⟨"", .sent⟩], u, ?_, ?_⟩
      · rw [exec_cons, hstep]
        exact (exec_cons t _ []).trans (by rw [hstep']; rfl)
      · exact State.not_keeps .stopped .completed ha rfl (by decide) hu rfl (by decide)

/-- A stop against the condition: of a run that has failed, or of one that is about to write its
status. -/
theorem overwritten_of_stop {runId now : String} (hsound : s.Sound)
    (hlate : ¬InTime s (.stop runId now)) (hstep : step cfg s (.stop runId now) = some s') :
    ∃ es t, exec (step cfg) s' es = some t ∧ (¬s.Keeps t ∨ ¬s'.Keeps t) := by
  rw [InTime] at hlate
  push Not at hlate
  obtain ⟨a, hattempt, hcompleted, hstopped, hlate⟩ := hlate
  obtain ⟨k, hk, ha⟩ := Option.bind_eq_some_iff.mp hattempt
  have hended : ¬(a.run.status = .completed ∨ a.run.status = .stopped) :=
    fun h ↦ h.elim hcompleted hstopped
  have hs' : s'.attempts[k]? = some (a.stop now) := by
    rw [step, State.stopBenchmark, hk] at hstep
    dsimp only at hstep
    rw [ha] at hstep
    dsimp only at hstep
    rw [if_neg hended] at hstep
    rw [← Option.some_inj.mp hstep]
    exact List.getElem?_set_self (List.getElem?_eq_some_iff.mp ha).1
  -- of a failed run, the stop itself is what overwrites
  by_cases hfailed : a.run.status = .failed
  · refine ⟨[], s', rfl, Or.inl ?_⟩
    exact State.not_keeps .failed .stopped ha hfailed (by decide) hs' rfl (by decide)
  · have hterminal : ¬a.run.status.Terminal := by
      rintro (h | h | h)
      · exact hcompleted h
      · exact hstopped h
      · exact hfailed h
    obtain ⟨es, t, hexec, hkeeps⟩ := State.overwritten_of_committed cfg (hsound k a ha) hterminal
      (hlate hfailed) hs'
    exact ⟨es, t, hexec, Or.inr hkeeps⟩

/-- A publication against the condition: of a stopped run, and it throws. -/
theorem overwritten_of_publish {env : Env} (hsound : s.Sound) (hlate : ¬InTime s (.run k env))
    (hstep : step cfg s (.run k env) = some s') :
    ∃ es t, exec (step cfg) s' es = some t ∧ ¬s'.Keeps t := by
  rw [InTime] at hlate
  push Not at hlate
  obtain ⟨⟨run, pc⟩, ha, hflag, hpublishing, hlate⟩ := hlate
  obtain ⟨assignment, rest, rfl⟩ := hpublishing.exists_eq
  have hstatus : run.status = .stopped := by
    have h := hsound k _ ha
    dsimp only at hflag
    grind [Attempt.Sound, idleProgram]
  cases hd : env.delivery with
  | sent => exact absurd hd hlate
  | threw error reached =>
    have hnext : Attempt.next env ⟨run, .running (.publish assignment :: rest)⟩ =
        some (⟨run, .failing assignment.phase error⟩,
          (Delivery.threw error reached).log assignment) := by
      rw [Attempt.next, hd]
    obtain ⟨t, ht, hattempt, -⟩ := step_run_of_next cfg env ha hnext
    rw [ht, Option.some_inj] at hstep
    subst hstep
    exact State.overwritten_of_failing cfg hattempt hstatus

/-- After a step against the condition, a terminal status changes. -/
theorem overwritten_of_not_inTime {e : Event} (hsound : s.Sound) (hlate : ¬InTime s e)
    (hstep : step cfg s e = some s') :
    ∃ es t, exec (step cfg) s' es = some t ∧ (¬s.Keeps t ∨ ¬s'.Keeps t) := by
  cases e with
  | start | publishStop => exact absurd trivial hlate
  | stop runId now => exact overwritten_of_stop hsound hlate hstep
  | run k env =>
    obtain ⟨es, t, hexec, hkeeps⟩ := overwritten_of_publish hsound hlate hstep
    exact ⟨es, t, hexec, Or.inr hkeeps⟩

/-! ## Absorption -/

/-- The run of an id is reported stopped, and a request for the id is not refused for it. -/
def State.ReportsStopped (cfg : Config) (s : State) (runId : String) : Prop :=
  (∃ run, s.getRunStatus runId = .ok run ∧ run.status.toString = "stopped") ∧
  ∀ req r uuid now, req.resolve cfg uuid = .ok r → r.runId = runId →
    ∃ t, s.startBenchmark cfg uuid now req = .ok t

theorem State.reportsStopped {runId : String} (hk : s.runs.lookup runId = some k)
    (hstatus : s.status k = some .stopped) : s.ReportsStopped cfg runId := by
  obtain ⟨a, ha, hstopped⟩ := Option.map_eq_some_iff.mp hstatus
  have hattempt : s.attempt runId = some a := by rw [State.attempt, hk]; exact ha
  refine ⟨⟨a.run, by rw [State.getRunStatus, hattempt], by rw [hstopped]; rfl⟩, ?_⟩
  intro req r uuid now hr hid
  have hfree : ¬∃ a ∈ s.attempt r.runId, ¬a.run.status.Terminal := by
    rintro ⟨b, hb, hterminal⟩
    rw [hid, hattempt, Option.mem_def, Option.some_inj] at hb
    rw [← hb, hstopped] at hterminal
    exact hterminal (by decide)
  rw [State.startBenchmark, hr]
  dsimp only
  rw [if_neg hfree]
  exact ⟨_, rfl⟩

/-- **When terminal statuses are absorbing.** In every run in which each stop and each publication
is in time, a status that is `completed`, `stopped` or `failed` stays, and a run that was stopped is
reported so and can be started again until its id names another run. After any step taken against
that condition, the run can go on to change a terminal status. -/
theorem terminal_statuses_absorbing (cfg : Config) :
    (∀ es s es' s', Guarded (step cfg) InTime State.initial (es ++ es') →
      exec (step cfg) State.initial es = some s → exec (step cfg) s es' = some s' → s.Keeps s') ∧
    (∀ es s runId now t es' s',
      Guarded (step cfg) InTime State.initial (es ++ .stop runId now :: es') →
      exec (step cfg) State.initial es = some s → s.stopBenchmark now runId = .ok t →
      exec (step cfg) t es' = some s' → s'.runs.lookup runId = t.runs.lookup runId →
      s'.ReportsStopped cfg runId) ∧
    ∀ es s e s', Guarded (step cfg) InTime State.initial es →
      exec (step cfg) State.initial es = some s → ¬InTime s e → step cfg s e = some s' →
      ∃ es' t, exec (step cfg) s' es' = some t ∧ (¬s.Keeps t ∨ ¬s'.Keeps t) := by
  refine ⟨?_, ?_, ?_⟩
  · intro es s es' s' htime hexec hexec'
    rw [guarded_append] at htime
    have hsound := (run_keeps State.sound_initial htime.1 hexec).1
    exact (run_keeps hsound (htime.2 s hexec) hexec').2
  -- the stopped attempt keeps its status, and the id still leads to it
  · intro es s runId now t es' s' htime hexec hstop hexec' hlookup
    rw [guarded_append] at htime
    have hsound := (run_keeps State.sound_initial htime.1 hexec).1
    have hstep : step cfg s (.stop runId now) = some t := by rw [step, hstop]
    obtain ⟨hin, hrest⟩ := htime.2 s hexec
    have hsound' := step_sound hsound hin hstep
    obtain ⟨k, a, hk, ha, -, rfl⟩ := State.stopBenchmark_ok hstop
    have hset : (s.attempts.set k (a.stop now))[k]? = some (a.stop now) :=
      List.getElem?_set_self (List.getElem?_eq_some_iff.mp ha).1
    have hkeeps := (run_keeps hsound' (hrest _ hstep) hexec').2
    refine State.reportsStopped (hlookup.trans hk) (hkeeps k .stopped ?_ (by decide))
    rw [State.status, hset]
    rfl
  · intro es s e s' htime hexec hlate hstep
    exact overwritten_of_not_inTime (run_keeps State.sound_initial htime hexec).1 hlate hstep

/-! ## A stopped run that looks alive -/

def sampleConfig : Config := ⟨10, ["BTC"]⟩

def sampleRequest : StartBenchmarkRequest :=
  ⟨"run", "submission", "http://sut", 10, 60, ⟨3 / 5, 3 / 10, 1 / 10, 10, ["BTC"]⟩⟩

/-- The stop comes between the check of the first phase and the update of its status. -/
def lateStop : List Event :=
  [.start sampleRequest "" "12:00:00", .run 0 ⟨"12:00:01", .sent⟩, .stop "run" "12:00:02"]

/-- The executor updates the status, publishes and leaves at the end of its wait. -/
def lastSteps : List Event :=
  [.run 0 ⟨"12:00:03", .sent⟩, .run 0 ⟨"12:00:04", .sent⟩, .run 0 ⟨"12:00:05", .sent⟩]

theorem lateStop_overwritten : ∃ s s', exec (step sampleConfig) State.initial lateStop = some s ∧
    exec (step sampleConfig) s lastSteps = some s' ∧ ¬s.Keeps s' ∧
    (s'.startBenchmark sampleConfig "" "12:00:06" sampleRequest).isOk = false := by
  have hrun : ((exec (step sampleConfig) State.initial lateStop).any fun s ↦
      (exec (step sampleConfig) s lastSteps).any fun s' ↦
        decide (s.status 0 = some .stopped ∧ s'.status 0 = some .warmup ∧
          (s'.startBenchmark sampleConfig "" "12:00:06" sampleRequest).isOk = false)) = true := by
    decide +kernel
  obtain ⟨s, hs, hrun⟩ := (Option.any_eq_true _ _).mp hrun
  obtain ⟨s', hs', hrun⟩ := (Option.any_eq_true _ _).mp hrun
  obtain ⟨hstopped, hwarmup, hrefused⟩ := of_decide_eq_true hrun
  refine ⟨s, s', hs, hs', fun hkeeps ↦ ?_, hrefused⟩
  have h := hkeeps 0 .stopped hstopped (by decide)
  rw [hwarmup] at h
  exact absurd h (by decide)

end BenchmarkPlatform.Orchestrator
