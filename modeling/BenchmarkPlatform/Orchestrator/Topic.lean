import BenchmarkPlatform.Orchestrator.Run

/-!
# The end of a run on the command topic

`stop_benchmark` publishes a `"stop"` assignment after its critical section, and the executor
publishes its phases. An executor that has looked at the cancel flag publishes once more before it
looks again, and a stop that reaches the topic in between is not the last word on its run.

An executor is *armed* between the look and the publication. A stop that finds the executor
disarmed is final; one that does not can be followed by the phase it meant to prevent.
-/

namespace BenchmarkPlatform.Orchestrator

open Lib

variable {cfg : Config} {s s' : State} {k : ℕ}

/-! ## Programs -/

/-- A publication comes before the next look at the cancel flag. -/
def PublishesNext : List Instr → Prop
  | .publish _ :: _ => True
  | .updateRunPhase _ _ :: rest => PublishesNext rest
  | .complete :: rest => PublishesNext rest
  | _ => False

def ExecutorPc.Armed : ExecutorPc → Prop
  | .running p => PublishesNext p
  | .failing _ _ => False

/-- The phases of a run. -/
def phaseNames : List String := ["warmup", "ramp", "peak", "burst", "cooldown"]

theorem stop_notMem_phaseNames : "stop" ∉ phaseNames := by decide

/-- Only phases are published. -/
def Phased (p : List Instr) : Prop := ∀ x, .publish x ∈ p → x.phase ∈ phaseNames

theorem Phased.tail {i : Instr} {p : List Instr} (h : Phased (i :: p)) : Phased p :=
  fun x hx ↦ h x (List.mem_cons_of_mem i hx)

theorem phased_executePhases (runId : String) (req : StartBenchmarkRequest) :
    Phased (executePhases runId req) := by
  intro x hx
  rw [executePhases, List.mem_append, List.mem_flatMap] at hx
  rcases hx with ⟨phase, hphase, hx⟩ | hx
  · have hname : phase.name ∈ phaseNames := by
      simp only [buildPhases, List.mem_cons, List.not_mem_nil, or_false] at hphase
      rcases hphase with rfl | rfl | rfl | rfl | rfl <;> simp [phaseNames]
    rw [executePhase, List.mem_append] at hx
    rcases hx with hx | hx
    · simp at hx
    · split at hx
      · obtain ⟨n, -, hx⟩ := List.mem_flatMap.mp hx
        have hramp : x = rampAssignment runId req phase n := by
          rw [rampStep] at hx
          split at hx <;> simpa using hx
        rw [hramp]
        exact (by decide : "ramp" ∈ phaseNames)
      · have hbuilt : x = buildAssignment runId req phase.name phase.botCount phase.durationMs := by
          simpa using hx
        rw [hbuilt]
        exact hname
  · simp at hx

/-! ## Executors -/

def Attempt.Phased (a : Attempt) : Prop := ∀ p, a.pc = .running p → Orchestrator.Phased p

/-- **What a step of an executor does.** It leaves, goes on or begins to fail. It goes on from a
look at the cancel flag only if the flag is not set, and only a publication adds to the topic. -/
theorem Attempt.next_cases {a b : Attempt} {env : Env} {out : List BotAssignment}
    (h : a.next env = some (b, out)) :
    b.run.cancelFlag = a.run.cancelFlag ∧
    ((b.pc = .running [] ∧ out = []) ∨
    ∃ i rest, a.pc = .running (i :: rest) ∧ (∀ x ∈ out, i = .publish x) ∧
      ((b.pc = .running rest ∧ (Pauses (i :: rest) → a.run.cancelFlag = false)) ∨
        ∃ phase error, b.pc = .failing phase error)) := by
  obtain ⟨run, pc⟩ := a
  cases pc with
  | failing phase error =>
    obtain ⟨rfl, rfl⟩ := Prod.mk.inj (Option.some.inj h)
    exact ⟨rfl, Or.inl ⟨rfl, rfl⟩⟩
  | running p =>
    cases p with
    | nil => exact absurd h (by simp [Attempt.next])
    | cons i rest =>
      cases i with
      | check | wait _ =>
        obtain ⟨rfl, rfl⟩ := Prod.mk.inj (Option.some.inj h)
        refine ⟨rfl, ?_⟩
        cases hflag : run.cancelFlag with
        | true => exact Or.inl ⟨rfl, rfl⟩
        | false => exact Or.inr ⟨_, rest, rfl, by simp, Or.inl ⟨rfl, fun _ ↦ rfl⟩⟩
      | updateRunPhase phase status =>
        obtain ⟨rfl, rfl⟩ := Prod.mk.inj (Option.some.inj h)
        exact ⟨rfl, Or.inr ⟨_, rest, rfl, by simp, Or.inl ⟨rfl, False.elim⟩⟩⟩
      | complete =>
        obtain ⟨rfl, rfl⟩ := Prod.mk.inj (Option.some.inj h)
        refine ⟨?_, Or.inr ⟨_, rest, rfl, by simp, Or.inl ⟨rfl, False.elim⟩⟩⟩
        dsimp only
        split <;> rfl
      | publish assignment =>
        rw [Attempt.next] at h
        cases hd : env.delivery with
        | sent =>
          rw [hd] at h
          obtain ⟨rfl, rfl⟩ := Prod.mk.inj (Option.some.inj h)
          exact ⟨rfl, Or.inr ⟨_, rest, rfl, by simp [Delivery.log], Or.inl ⟨rfl, False.elim⟩⟩⟩
        | threw error reached =>
          rw [hd] at h
          obtain ⟨rfl, rfl⟩ := Prod.mk.inj (Option.some.inj h)
          -- a publication that throws may have reached the topic all the same
          refine ⟨rfl, Or.inr ⟨_, rest, rfl, ?_, Or.inr ⟨_, error, rfl⟩⟩⟩
          cases reached <;> simp [Delivery.log]

/-- An executor publishes phases only. -/
theorem Attempt.Phased.next {a b : Attempt} {env : Env} {out : List BotAssignment} (h : a.Phased)
    (hnext : a.next env = some (b, out)) : b.Phased ∧ ∀ x ∈ out, x.phase ∈ phaseNames := by
  obtain ⟨-, ⟨hpc, rfl⟩ | ⟨i, rest, hpc, hout, hrest⟩⟩ := Attempt.next_cases hnext
  · refine ⟨fun p hp x hx ↦ ?_, by simp⟩
    rw [hpc] at hp
    cases hp
    simp at hx
  · have hphased := h _ hpc
    refine ⟨fun p hp ↦ ?_, fun x hx ↦ hphased x (by rw [hout x hx]; exact List.mem_cons_self)⟩
    rcases hrest with ⟨hb, -⟩ | ⟨phase, error, hb⟩
    · rw [hb] at hp
      cases hp
      exact hphased.tail
    · rw [hb] at hp
      cases hp

/-- **A disarmed executor** that is cancelled stays disarmed and publishes nothing. -/
theorem Attempt.next_disarmed {a b : Attempt} {env : Env} {out : List BotAssignment}
    (hflag : a.run.cancelFlag = true) (hpc : ¬a.pc.Armed) (hnext : a.next env = some (b, out)) :
    ¬b.pc.Armed ∧ out = [] := by
  obtain ⟨-, ⟨hb, rfl⟩ | ⟨i, rest, ha, hout, hrest⟩⟩ := Attempt.next_cases hnext
  · rw [hb]
    exact ⟨id, rfl⟩
  · rw [ha] at hpc
    have hi : ∀ x, i ≠ .publish x := by
      rintro x rfl
      exact hpc trivial
    refine ⟨?_, List.eq_nil_iff_forall_not_mem.mpr fun x hx ↦ hi x (hout x hx)⟩
    rcases hrest with ⟨hb, hlook⟩ | ⟨phase, error, hb⟩
    · rw [hb]
      rw [hflag] at hlook
      cases i with
      | check | wait _ => exact absurd (hlook trivial) (by simp)
      | updateRunPhase _ _ | complete => exact hpc
      | publish x => exact absurd rfl (hi x)
    · rw [hb]
      exact id

/-! ## The condition -/

def State.StopFinal (s : State) : Prop :=
  s.topic.Pairwise fun e e' ↦ e.assignment.phase = "stop" → e'.attempt = e.attempt →
    e'.assignment.phase ∉ phaseNames

/-- A stop reaches the topic only while the executor of its run is disarmed. -/
def FindsDisarmed (s : State) : Event → Prop
  | .publishStop k delivery => delivery.Reached → ∀ a ∈ s.attempts[k]?, ¬a.pc.Armed
  | _ => True

/-! ## Runs -/

/-- Every run keeps this: executors publish phases only, and stoppers have set the flag. -/
structure State.Orderly (s : State) : Prop where
  phased : ∀ (k : ℕ) (a : Attempt), s.attempts[k]? = some a → a.Phased
  cancelled : ∀ k ∈ s.stopping, ∃ a, s.attempts[k]? = some a ∧ a.run.cancelFlag = true

/-- A stop on the topic has a cancelled and disarmed executor. -/
def State.Ended (s : State) : Prop :=
  ∀ e ∈ s.topic, e.assignment.phase = "stop" →
    ∃ a, s.attempts[e.attempt]? = some a ∧ a.run.cancelFlag = true ∧ ¬a.pc.Armed

/-- A set flag stays set. -/
theorem step_cancelFlag {e : Event} {a : Attempt} (h : step cfg s e = some s')
    (ha : s.attempts[k]? = some a) (hflag : a.run.cancelFlag = true) :
    ∃ b, s'.attempts[k]? = some b ∧ b.run.cancelFlag = true ∧ (¬a.pc.Armed → ¬b.pc.Armed) := by
  obtain ⟨b, hb⟩ := step_exists_attempt h ha
  refine ⟨b, hb, ?_⟩
  rcases step_attempt h hb with hb | ⟨hnone, -⟩ | ⟨-, now, c, -, -, hc, -, rfl⟩
    | ⟨env, c, out, -, hc, hnext⟩
  · rw [ha, Option.some_inj] at hb
    exact hb ▸ ⟨hflag, id⟩
  · rw [ha] at hnone
    exact absurd hnone (by simp)
  · rw [ha, Option.some_inj] at hc
    exact hc ▸ ⟨rfl, id⟩
  · rw [ha, Option.some_inj] at hc
    subst hc
    exact ⟨(Attempt.next_cases hnext).1.trans hflag,
      fun hpc ↦ (Attempt.next_disarmed hflag hpc hnext).1⟩

theorem step_orderly {e : Event} (h : s.Orderly) (hstep : step cfg s e = some s') :
    s'.Orderly := by
  refine ⟨fun k b hb ↦ ?_, fun k hk ↦ ?_⟩
  · rcases step_attempt hstep hb with hb | ⟨-, r, now, rfl⟩ | ⟨-, now, a, -, -, ha, -, rfl⟩
      | ⟨env, a, out, -, ha, hnext⟩
    · exact h.phased k b hb
    · exact fun p hp ↦ ExecutorPc.running.inj hp ▸ phased_executePhases _ _
    · exact h.phased k a ha
    · exact ((h.phased k a ha).next hnext).1
  -- a cancel flag is never taken back
  · have hold : k ∈ s.stopping → ∃ b, s'.attempts[k]? = some b ∧ b.run.cancelFlag = true := by
      intro hk
      obtain ⟨a, ha, hflag⟩ := h.cancelled k hk
      obtain ⟨b, hb, hflag', -⟩ := step_cancelFlag hstep ha hflag
      exact ⟨b, hb, hflag'⟩
    cases e with
    | start req uuid now =>
      rcases step_start hstep with rfl | hstart
      · exact hold hk
      · obtain ⟨r, -, -, rfl⟩ := State.startBenchmark_ok hstart
        exact hold hk
    | stop runId now =>
      rcases step_stop hstep with rfl | hstop
      · exact hold hk
      · obtain ⟨j, a, -, ha, -, rfl⟩ := State.stopBenchmark_ok hstop
        rcases List.mem_cons.mp hk with rfl | hk
        · exact ⟨_, List.getElem?_set_self (List.getElem?_eq_some_iff.mp ha).1, rfl⟩
        · exact hold hk
    | publishStop j delivery =>
      obtain ⟨a, -, -, rfl⟩ := step_publishStop hstep
      exact hold (List.mem_of_mem_erase hk)
    | run j env =>
      obtain ⟨a, b, out, -, -, rfl⟩ := step_run hstep
      exact hold hk

/-- What a step adds to the topic: the stop of a cancelled run, or phases of an armed executor if
the run is cancelled. -/
theorem step_topic {e : Event} (h : s.Orderly) (hstep : step cfg s e = some s') :
    ∃ k out, s'.topic = s.topic ++ out.map (Entry.mk k) ∧
      (out = [] ∨
        (∃ delivery a, e = .publishStop k delivery ∧ delivery.Reached ∧ s.attempts[k]? = some a ∧
          a.run.cancelFlag = true ∧ s'.attempts = s.attempts ∧ out = [a.run.stopAssignment]) ∨
        ∃ a, s.attempts[k]? = some a ∧ (a.run.cancelFlag = true → a.pc.Armed) ∧
          ∀ x ∈ out, x.phase ∈ phaseNames) := by
  cases e with
  | start req uuid now =>
    refine ⟨0, [], ?_, Or.inl rfl⟩
    rcases step_start hstep with rfl | hstart
    · simp
    · obtain ⟨r, -, -, rfl⟩ := State.startBenchmark_ok hstart
      simp
  | stop runId now =>
    refine ⟨0, [], ?_, Or.inl rfl⟩
    rcases step_stop hstep with rfl | hstop
    · simp
    · obtain ⟨j, a, -, -, -, rfl⟩ := State.stopBenchmark_ok hstop
      simp
  | publishStop k delivery =>
    obtain ⟨a, ha, hk, rfl⟩ := step_publishStop hstep
    obtain ⟨a', ha', hflag⟩ := h.cancelled k hk
    rw [ha, Option.some_inj] at ha'
    subst ha'
    refine ⟨k, delivery.log a.run.stopAssignment, rfl, ?_⟩
    match delivery with
    | .sent => exact Or.inr (Or.inl ⟨_, a, rfl, trivial, ha, hflag, rfl, rfl⟩)
    | .threw error true => exact Or.inr (Or.inl ⟨_, a, rfl, rfl, ha, hflag, rfl, rfl⟩)
    | .threw error false => exact Or.inl rfl
  | run k env =>
    obtain ⟨a, b, out, ha, hnext, rfl⟩ := step_run hstep
    refine ⟨k, out, rfl, ?_⟩
    by_cases harmed : a.run.cancelFlag = true → a.pc.Armed
    -- an armed executor, or one that is not cancelled
    · exact Or.inr (Or.inr ⟨a, ha, harmed, ((h.phased k a ha).next hnext).2⟩)
    · rw [Classical.not_imp] at harmed
      exact Or.inl (Attempt.next_disarmed harmed.1 harmed.2 hnext).2

theorem step_stopFinal {e : Event} (h : s.Orderly) (hended : s.Ended) (hfinal : s.StopFinal)
    (hguard : FindsDisarmed s e) (hstep : step cfg s e = some s') : s'.Ended ∧ s'.StopFinal := by
  -- a disarmed executor stays disarmed
  have hkept : ∀ e ∈ s.topic, e.assignment.phase = "stop" →
      ∃ a, s'.attempts[e.attempt]? = some a ∧ a.run.cancelFlag = true ∧ ¬a.pc.Armed := by
    intro e he hstop
    obtain ⟨a, ha, hflag, hpc⟩ := hended e he hstop
    obtain ⟨b, hb, hflag', hpc'⟩ := step_cancelFlag hstep ha hflag
    exact ⟨b, hb, hflag', hpc' hpc⟩
  obtain ⟨k, out, htopic, hout⟩ := step_topic h hstep
  have hsplit : s'.StopFinal ↔ s.StopFinal ∧
      (out.map (Entry.mk k)).Pairwise (fun e e' ↦ e.assignment.phase = "stop" →
        e'.attempt = e.attempt → e'.assignment.phase ∉ phaseNames) ∧
      ∀ e ∈ s.topic, ∀ e' ∈ out.map (Entry.mk k), e.assignment.phase = "stop" →
        e'.attempt = e.attempt → e'.assignment.phase ∉ phaseNames := by
    rw [State.StopFinal, htopic, List.pairwise_append]
    rfl
  rw [hsplit, State.Ended, htopic]
  -- nothing, a stop or a phase is added
  rcases hout with rfl | ⟨delivery, a, rfl, hreached, ha, hflag, hattempts, rfl⟩
    | ⟨a, ha, harmed, hphase⟩
  · rw [List.map_nil, List.append_nil]
    exact ⟨hkept, hfinal, List.Pairwise.nil, by simp⟩
  · rw [List.map_singleton]
    refine ⟨fun e he hstop ↦ ?_, hfinal, List.pairwise_singleton _ _, fun e _ e' he' _ _ ↦ ?_⟩
    · rcases List.mem_append.mp he with he | he
      · exact hkept e he hstop
      · rw [List.mem_singleton] at he
        subst he
        exact ⟨a, hattempts ▸ ha, hflag, hguard hreached a ha⟩
    · rw [List.mem_singleton] at he'
      subst he'
      exact stop_notMem_phaseNames
  · have hmem : ∀ e ∈ out.map (Entry.mk k), e.attempt = k ∧ e.assignment.phase ∈ phaseNames := by
      intro e he
      obtain ⟨x, hx, rfl⟩ := List.mem_map.mp he
      exact ⟨rfl, hphase x hx⟩
    refine ⟨fun e he hstop ↦ ?_, hfinal, ?_, fun e he e' he' hstop hsame ↦ ?_⟩
    · rcases List.mem_append.mp he with he | he
      · exact hkept e he hstop
      · exact absurd (hstop ▸ (hmem e he).2) stop_notMem_phaseNames
    · refine List.pairwise_of_forall_mem_list fun e he e' _ hstop ↦ ?_
      exact absurd (hstop ▸ (hmem e he).2) stop_notMem_phaseNames
    · -- the stop on the topic says that this executor is disarmed
      obtain ⟨a', ha', hflag, hpc⟩ := hended e he hstop
      rw [← hsame, (hmem e' he').1, ha, Option.some_inj] at ha'
      subst ha'
      exact absurd (harmed hflag) hpc

theorem State.orderly_initial : State.initial.Orderly :=
  ⟨fun k a ha ↦ by simp [State.initial] at ha, fun k hk ↦ by simp [State.initial] at hk⟩

/-! ## Stops that are not final -/

/-- An armed executor goes on to publish. -/
theorem exec_publish (cfg : Config) {run : BenchmarkRun} {p : List Instr} (harmed : PublishesNext p)
    (hphased : Phased p) (ha : s.attempts[k]? = some ⟨run, .running p⟩) :
    ∃ es s' x, exec (step cfg) s es = some s' ∧ s'.topic = s.topic ++ [Entry.mk k x] ∧
      x.phase ∈ phaseNames := by
  induction p generalizing run s with
  | nil => exact harmed.elim
  | cons i rest ih =>
    cases i with
    -- at a look at the flag it would leave
    | check | wait _ => exact harmed.elim
    | publish x =>
      obtain ⟨t, hstep, -, htopic⟩ := step_run_of_next cfg ⟨"", .sent⟩ ha rfl
      exact ⟨[.run k ⟨"", .sent⟩], t, x, by rw [exec_cons, hstep]; rfl, htopic,
        hphased x List.mem_cons_self⟩
    | updateRunPhase phase status =>
      obtain ⟨t, hstep, ht, htopic⟩ := step_run_of_next cfg ⟨"", .sent⟩ ha rfl
      obtain ⟨es, u, x, hexec, htopic', hx⟩ := ih harmed hphased.tail ht
      rw [List.map_nil, List.append_nil] at htopic
      exact ⟨.run k ⟨"", .sent⟩ :: es, u, x, by rw [exec_cons, hstep]; exact hexec,
        htopic ▸ htopic', hx⟩
    | complete =>
      obtain ⟨t, hstep, ht, htopic⟩ := step_run_of_next cfg ⟨"", .sent⟩ ha rfl
      obtain ⟨es, u, x, hexec, htopic', hx⟩ := ih harmed hphased.tail ht
      rw [List.map_nil, List.append_nil] at htopic
      exact ⟨.run k ⟨"", .sent⟩ :: es, u, x, by rw [exec_cons, hstep]; exact hexec,
        htopic ▸ htopic', hx⟩

/-- **When a stop is final on the topic.** In every run in which each stop reaches the topic while
the executor of its run is disarmed, no phase follows the stop of its run. After any stop that
reaches the topic while the executor is armed, that executor can go on to publish a phase, which
comes right behind the stop. -/
theorem stop_final_on_topic (cfg : Config) :
    (∀ es s, Guarded (step cfg) FindsDisarmed State.initial es →
      exec (step cfg) State.initial es = some s → s.StopFinal) ∧
    ∀ es s e s', exec (step cfg) State.initial es = some s → ¬FindsDisarmed s e →
      step cfg s e = some s' → ∃ k delivery a x, e = .publishStop k delivery ∧
        s.attempts[k]? = some a ∧ x.phase ∈ phaseNames ∧
        ∃ es' t, exec (step cfg) s' es' = some t ∧
          t.topic = s.topic ++ [⟨k, a.run.stopAssignment⟩, ⟨k, x⟩] ∧ ¬t.StopFinal := by
  constructor
  · intro es s hguard hexec
    refine (hguard.invariant (P := fun s : State ↦ s.Orderly ∧ s.Ended ∧ s.StopFinal) ?_
      ⟨State.orderly_initial, fun e he ↦ ?_, List.Pairwise.nil⟩ hexec).2.2
    · intro s e s' h hg hstep
      exact ⟨step_orderly h.1 hstep, step_stopFinal h.1 h.2.1 h.2.2 hg hstep⟩
    · simp [State.initial] at he
  · intro es s e s' hexec hguard hstep
    have horderly : s.Orderly :=
      exec_invariant (fun _ _ _ h hstep ↦ step_orderly h hstep) State.orderly_initial hexec
    cases e with
    | publishStop k delivery =>
      rw [FindsDisarmed] at hguard
      push Not at hguard
      obtain ⟨hreached, ⟨run, pc⟩, ha, harmed⟩ := hguard
      obtain ⟨a, ha', hk, rfl⟩ := step_publishStop hstep
      have ha : s.attempts[k]? = some ⟨run, pc⟩ := ha
      rw [ha, Option.some_inj] at ha'
      subst ha'
      cases pc with
      | failing phase error => exact harmed.elim
      | running p =>
        obtain ⟨es', t, x, hexec', htopic, hx⟩ :=
          exec_publish (s := { s with
            stopping := s.stopping.erase k
            topic := s.topic ++ (delivery.log run.stopAssignment).map (Entry.mk k) })
            cfg harmed (horderly.phased k _ ha p rfl) ha
        have hlog : delivery.log run.stopAssignment = [run.stopAssignment] := by
          match delivery, hreached with
          | .sent, _ => rfl
          | .threw error true, _ => rfl
        rw [hlog] at htopic
        refine ⟨k, delivery, _, x, rfl, ha, hx, es', t, hexec', ?_, fun hfinal ↦ ?_⟩
        · rw [htopic, List.append_assoc]
          rfl
        · rw [State.StopFinal, htopic, List.pairwise_append] at hfinal
          exact hfinal.2.2 ⟨k, run.stopAssignment⟩ (by simp) ⟨k, x⟩ (by simp) rfl rfl hx
    | start | stop | run => exact absurd trivial hguard

/-! ## A phase after the stop -/

instance (s : State) : Decidable s.StopFinal :=
  inferInstanceAs (Decidable (s.topic.Pairwise fun e e' ↦ e.assignment.phase = "stop" →
    e'.attempt = e.attempt → e'.assignment.phase ∉ phaseNames))

/-- The stop is published between the first check of the executor and its first publication. -/
def phaseAfterStop : List Event :=
  [.start ⟨"run", "submission", "http://sut", 10, 60, ⟨3 / 5, 3 / 10, 1 / 10, 10, ["BTC"]⟩⟩ ""
      "12:00:00",
    .run 0 ⟨"12:00:01", .sent⟩, .stop "run" "12:00:02", .publishStop 0 .sent,
    .run 0 ⟨"12:00:03", .sent⟩, .run 0 ⟨"12:00:04", .sent⟩]

theorem phaseAfterStop_not_final : ∃ s,
    exec (step ⟨10, ["BTC"]⟩) State.initial phaseAfterStop = some s ∧ ¬s.StopFinal := by
  have hrun : ((exec (step ⟨10, ["BTC"]⟩) State.initial phaseAfterStop).any fun s ↦
      decide ¬s.StopFinal) = true := by decide +kernel
  obtain ⟨s, hs, hfinal⟩ := (Option.any_eq_true _ _).mp hrun
  exact ⟨s, hs, of_decide_eq_true hfinal⟩

end BenchmarkPlatform.Orchestrator
