import BenchmarkPlatform.Orchestrator.Ramp
import BenchmarkPlatform.Orchestrator.Status
import BenchmarkPlatform.Orchestrator.Topic
import BenchmarkPlatform.Worker.Limit
import BenchmarkPlatform.Worker.Rate
import BenchmarkPlatform.Worker.Wire

/-!
# From the orchestrator to the bots

The orchestrator publishes assignments on the command topic, as JSON; a worker that is handed one
starts the bots it asks for. Kafka may hand an entry of the topic to any worker, at any time after
its publication and more than once.

Whatever the executors, the stoppers and the workers do, the bots that run in a worker go back to a
request that the orchestrator admitted: they call the endpoint of that request with its symbols, and
are at most twice as many and twice as fast as it says, which they are in the burst. The ratios of
the request reach the bots and are not used: each bot takes those of its persona.
-/

namespace BenchmarkPlatform

open Lib

/-! ## What is published for a request -/

namespace Orchestrator

/-- The numbers are of the type `int`. -/
structure StartBenchmarkRequest.Typed (req : StartBenchmarkRequest) : Prop where
  botCount : Json.Fits 32 req.botCount
  ordersPerSecPerBot : Json.Fits 32 req.profile.ordersPerSecPerBot

/-- An assignment for a request that has been admitted. -/
structure BotAssignment.For (a : BotAssignment) (r : StartBenchmarkRequest) : Prop where
  runId : a.runId = r.runId
  endpointUrl : a.endpointUrl = r.endpointUrl
  typed : a.Typed
  work : a.phase ≠ "stop" → a.botCount ≤ 2 * r.botCount ∧
    (a.ordersPerSecPerBot = r.profile.ordersPerSecPerBot ∨
      a.ordersPerSecPerBot = toInt (r.profile.ordersPerSecPerBot * 2)) ∧
    a.symbols = r.profile.symbols

theorem fits_toInt (n : ℤ) : Json.Fits 32 (toInt n) := by
  have hlow := Int.le_bmod (x := n) (m := 2 ^ 32) (by decide)
  have hhigh := Int.bmod_lt (x := n) (m := 2 ^ 32) (by decide)
  rw [toInt]
  exact ⟨by omega, by omega⟩

/-- Wrapping around makes no natural number greater. -/
theorem toInt_le {n : ℤ} (h : 0 ≤ n) : toInt n ≤ n := by
  rw [toInt, Int.bmod_def]
  push_cast
  split_ifs
  · omega
  · omega

variable {r : StartBenchmarkRequest}

theorem buildAssignment_for (hr : r.Typed) {phase : String} {botCount durationMs : ℤ}
    (hcount : Json.Fits 32 botCount) (hle : botCount ≤ 2 * r.botCount)
    (hduration : Json.Fits 32 durationMs) :
    (buildAssignment r.runId r phase botCount durationMs).For r where
  runId := rfl
  endpointUrl := rfl
  typed :=
    { botCount := hcount
      durationMs := hduration
      ordersPerSecPerBot := by
        rw [buildAssignment]
        dsimp only
        split_ifs
        · exact fits_toInt _
        · exact hr.ordersPerSecPerBot }
  work := by
    intro _
    refine ⟨hle, ?_, rfl⟩
    rw [buildAssignment]
    dsimp only
    split_ifs
    · exact .inr rfl
    · exact .inl rfl

/-- Division truncates towards zero. -/
theorem tdiv_mem {n d : ℤ} (hd : 0 < d) :
    (0 ≤ n → 0 ≤ n.tdiv d ∧ d * n.tdiv d ≤ n) ∧ (n ≤ 0 → n.tdiv d ≤ 0 ∧ n ≤ d * n.tdiv d) := by
  have hnonneg {n : ℤ} (hn : 0 ≤ n) : 0 ≤ n.tdiv d ∧ d * n.tdiv d ≤ n := by
    rw [Int.tdiv_eq_ediv_of_nonneg hn]
    exact ⟨Int.ediv_nonneg hn hd.le, Int.mul_ediv_self_le hd.ne'⟩
  refine ⟨hnonneg, fun hn ↦ ?_⟩
  obtain ⟨hquotient, hproduct⟩ := hnonneg (neg_nonneg.mpr hn)
  rw [Int.neg_tdiv] at hquotient hproduct
  rw [mul_neg] at hproduct
  omega

/-- The durations of the phases are of the type `int`, even when the total has wrapped around. -/
theorem fits_durationMs {phase : PhaseSpec} (h : phase ∈ buildPhases r) :
    Json.Fits 32 phase.durationMs := by
  obtain ⟨hlow, hhigh⟩ := fits_toInt (r.durationSeconds * 1000)
  rw [buildPhases] at h
  generalize toInt (r.durationSeconds * 1000) = totalMs at h hlow hhigh
  have htenth := tdiv_mem (n := totalMs) (show (0 : ℤ) < 10 by decide)
  have hfifth := tdiv_mem (n := totalMs) (show (0 : ℤ) < 5 by decide)
  simp only [List.mem_cons, List.not_mem_nil, or_false] at h
  rcases h with rfl | rfl | rfl | rfl | rfl
  all_goals
    constructor
    · dsimp only
      omega
    · dsimp only
      omega

theorem publish_mem_executePhases {a : BotAssignment} {runId : String}
    (h : .publish a ∈ executePhases runId r) : ∃ phase ∈ buildPhases r,
      a = buildAssignment runId r phase.name phase.botCount phase.durationMs ∨
        ∃ step ≤ totalSteps phase, a = rampAssignment runId r phase step := by
  rw [executePhases, List.mem_append, List.mem_flatMap] at h
  rcases h with ⟨phase, hphase, h⟩ | h
  · refine ⟨phase, hphase, ?_⟩
    rw [executePhase, List.mem_append] at h
    rcases h with h | h
    · simp at h
    · split at h
      · obtain ⟨step, hstep, h⟩ := List.mem_flatMap.mp h
        refine .inr ⟨step, Nat.lt_succ_iff.mp (List.mem_range.mp hstep), ?_⟩
        rw [rampStep] at h
        split at h <;> simpa using h
      · exact .inl (by simpa using h)
  · simp at h

/-- **What an executor publishes** is for its request. -/
theorem for_of_mem_executePhases (hr : r.Typed) (hbots : 1 ≤ r.botCount) {a : BotAssignment}
    (h : .publish a ∈ executePhases r.runId r) : a.For r := by
  obtain ⟨phase, hphase, rfl | ⟨step, hstep, rfl⟩⟩ := publish_mem_executePhases h
  · have hduration := fits_durationMs hphase
    obtain ⟨hwarmup, hwarmup'⟩ := warmupBots_mem hbots
    obtain ⟨hlow, hhigh⟩ := hr.botCount
    have hcount : Json.Fits 32 phase.botCount ∧ phase.botCount ≤ 2 * r.botCount := by
      rw [buildPhases] at hphase
      simp only [List.mem_cons, List.not_mem_nil, or_false] at hphase
      rcases hphase with rfl | rfl | rfl | rfl | rfl
      · exact ⟨⟨by dsimp only; omega, by dsimp only; omega⟩, by dsimp only; omega⟩
      · exact ⟨hr.botCount, by dsimp only; omega⟩
      · exact ⟨hr.botCount, by dsimp only; omega⟩
      · exact ⟨fits_toInt _, (toInt_le (by omega)).trans (by omega)⟩
      · exact ⟨⟨by dsimp only; omega, by dsimp only; omega⟩, by dsimp only; omega⟩
    exact buildAssignment_for hr hcount.1 hcount.2 hduration
  · obtain ⟨-, hcount, hcount'⟩ :
        _ ∧ 1 ≤ (rampAssignment r.runId r phase step).botCount ∧
          (rampAssignment r.runId r phase step).botCount ≤ r.botCount :=
      rampAssignment_botCount hbots hstep
    obtain ⟨-, hhigh⟩ := hr.botCount
    obtain ⟨-, hduration⟩ := fits_durationMs hphase
    have hfits : Json.Fits 32 (rampAssignment r.runId r phase step).botCount :=
      ⟨by omega, by omega⟩
    refine buildAssignment_for hr hfits (by omega) ⟨?_, ?_⟩
    · rw [stepIntervalMs]
      omega
    · rw [stepIntervalMs]
      omega

/-! ## What the orchestrator keeps -/

/-- The attempt is for this request, and so is all that its executor publishes. -/
structure Attempt.For (a : Attempt) (r : StartBenchmarkRequest) : Prop where
  runId : a.run.runId = r.runId
  endpointUrl : a.run.endpointUrl = r.endpointUrl
  publish : ∀ p, a.pc = .running p → ∀ x, .publish x ∈ p → x.For r

/-- An executor does not change what its run is. -/
theorem Attempt.next_run {a b : Attempt} {env : Env} {out : List BotAssignment}
    (h : a.next env = some (b, out)) :
    b.run.runId = a.run.runId ∧ b.run.endpointUrl = a.run.endpointUrl := by
  obtain ⟨run, pc⟩ := a
  cases pc with
  | failing phase error =>
    obtain ⟨rfl, -⟩ := Prod.mk.inj (Option.some.inj h)
    exact ⟨rfl, rfl⟩
  | running p =>
    rcases p with _ | ⟨i, rest⟩
    · exact absurd h (by simp [Attempt.next])
    cases i with
    | complete =>
      obtain ⟨rfl, -⟩ := Prod.mk.inj (Option.some.inj h)
      dsimp only
      split_ifs <;> exact ⟨rfl, rfl⟩
    | _ =>
      obtain ⟨rfl, -⟩ := Prod.mk.inj (Option.some.inj h)
      exact ⟨rfl, rfl⟩

theorem Attempt.For.next {a b : Attempt} {env : Env} {out : List BotAssignment} (h : a.For r)
    (hnext : a.next env = some (b, out)) : b.For r ∧ ∀ x ∈ out, x.For r := by
  obtain ⟨hrunId, hendpointUrl⟩ := Attempt.next_run hnext
  obtain ⟨-, ⟨hpc, rfl⟩ | ⟨i, rest, hpc, hout, hrest⟩⟩ := Attempt.next_cases hnext
  · refine ⟨⟨hrunId.trans h.runId, hendpointUrl.trans h.endpointUrl, fun p hp x hx ↦ ?_⟩, by simp⟩
    obtain rfl := ExecutorPc.running.inj (hpc.symm.trans hp)
    exact absurd hx List.not_mem_nil
  · have hpublish := h.publish _ hpc
    refine ⟨⟨hrunId.trans h.runId, hendpointUrl.trans h.endpointUrl, fun p hp x hx ↦ ?_⟩,
      fun x hx ↦ hpublish x (hout x hx ▸ List.mem_cons_self)⟩
    rcases hrest with ⟨hb, -⟩ | ⟨phase, error, hb⟩
    · obtain rfl := ExecutorPc.running.inj (hb.symm.trans hp)
      exact hpublish x (List.mem_cons_of_mem _ hx)
    · rw [hb] at hp
      cases hp

theorem Delivery.eq_of_mem_log {delivery : Delivery} {a x : BotAssignment}
    (h : x ∈ delivery.log a) : x = a := by
  rcases delivery with _ | ⟨error, reached⟩
  · exact List.mem_singleton.mp h
  · rw [log] at h
    split_ifs at h
    · exact List.mem_singleton.mp h
    · exact absurd h List.not_mem_nil

theorem Attempt.For.stopAssignment {a : Attempt} (h : a.For r) : a.run.stopAssignment.For r where
  runId := h.runId
  endpointUrl := h.endpointUrl
  typed :=
    have hzero : Json.Fits 32 0 := by decide
    ⟨hzero, hzero, hzero⟩
  work := fun hphase ↦ absurd rfl hphase

/-- The requests that a step admits, with their defaults filled in. -/
def State.admits (cfg : Config) (s : State) : Event → List StartBenchmarkRequest
  | .start req uuid now =>
    match s.startBenchmark cfg uuid now req, req.resolve cfg uuid with
    | .ok _, .ok r => [r]
    | _, _ => []
  | _ => []

theorem State.admits_start {cfg : Config} {s s' : State} {req : StartBenchmarkRequest}
    {uuid now : String} (hr : req.resolve cfg uuid = .ok r)
    (h : s.startBenchmark cfg uuid now req = .ok s') :
    s.admits cfg (.start req uuid now) = [r] := by
  rw [admits, hr, h]

theorem State.exists_of_mem_admits {cfg : Config} {s : State} {e : Event}
    (h : r ∈ s.admits cfg e) : ∃ req uuid now, e = .start req uuid now ∧
      req.resolve cfg uuid = .ok r := by
  cases e with
  | start req uuid now =>
    refine ⟨req, uuid, now, rfl, ?_⟩
    rw [admits] at h
    split at h
    · rename_i hresolve
      rw [List.mem_singleton.mp h]
      exact hresolve
    · exact absurd h List.not_mem_nil
  | _ => exact absurd h List.not_mem_nil

/-- The attempts and the topic go back to requests that were admitted. -/
structure State.For (accepted : StartBenchmarkRequest → Prop) (s : State) : Prop where
  attempt : ∀ a ∈ s.attempts, ∃ r, accepted r ∧ a.For r
  topic : ∀ e ∈ s.topic, ∃ r, accepted r ∧ e.assignment.For r

variable {accepted : StartBenchmarkRequest → Prop} {cfg : Config} {s s' : State}

theorem State.For.publish (h : s.For accepted) {out : List BotAssignment}
    (hr : accepted r) (hout : ∀ x ∈ out, x.For r) (k : ℕ) :
    ∀ e ∈ s.topic ++ out.map (Entry.mk k), ∃ r, accepted r ∧ e.assignment.For r := by
  intro e he
  rcases List.mem_append.mp he with he | he
  · exact h.topic e he
  · obtain ⟨x, hx, rfl⟩ := List.mem_map.mp he
    exact ⟨r, hr, hout x hx⟩

theorem State.For.imp {accepted' : StartBenchmarkRequest → Prop} (h : s.For accepted)
    (himp : ∀ r, accepted r → accepted' r) : s.For accepted' where
  attempt := by
    intro a ha
    obtain ⟨r, hr, hfor⟩ := h.attempt a ha
    exact ⟨r, himp r hr, hfor⟩
  topic := by
    intro e he
    obtain ⟨r, hr, hfor⟩ := h.topic e he
    exact ⟨r, himp r hr, hfor⟩

theorem State.For.set {attempts : List Attempt}
    (h : ∀ a ∈ attempts, ∃ r, accepted r ∧ a.For r) (hr : accepted r) {a : Attempt} (ha : a.For r)
    (k : ℕ) : ∀ b ∈ attempts.set k a, ∃ r, accepted r ∧ b.For r := by
  intro b hb
  rcases List.mem_or_eq_of_mem_set hb with hb | rfl
  · exact h b hb
  · exact ⟨r, hr, ha⟩

/-- **The step lemma of the orchestrator.** -/
theorem State.For.step (h : s.For accepted)
    (htyped : ∀ r, accepted r → r.Typed ∧ 1 ≤ r.botCount) {e : Event}
    (hadmits : ∀ r ∈ s.admits cfg e, accepted r) (hstep : Orchestrator.step cfg s e = some s') :
    s'.For accepted := by
  cases e with
  | start req uuid now =>
    rcases step_start hstep with rfl | hstart
    · exact h
    obtain ⟨r, hresolve, -, rfl⟩ := State.startBenchmark_ok hstart
    have hr := hadmits r (by
      rw [State.admits_start hresolve hstart]
      exact List.mem_singleton_self r)
    refine ⟨fun a ha ↦ ?_, h.topic⟩
    rcases List.mem_append.mp ha with ha | ha
    · exact h.attempt a ha
    · rw [List.mem_singleton.mp ha]
      refine ⟨r, hr, rfl, rfl, fun p hp x hx ↦ ?_⟩
      obtain rfl := ExecutorPc.running.inj hp
      exact for_of_mem_executePhases (htyped r hr).1 (htyped r hr).2 hx
  | stop runId now =>
    rcases step_stop hstep with rfl | hstop
    · exact h
    obtain ⟨k, a, -, ha, -, rfl⟩ := State.stopBenchmark_ok hstop
    obtain ⟨r, hr, hfor⟩ := h.attempt a (List.mem_of_getElem? ha)
    have hstopped : (a.stop now).For r := ⟨hfor.runId, hfor.endpointUrl, hfor.publish⟩
    exact ⟨State.For.set h.attempt hr hstopped k, h.topic⟩
  | publishStop k delivery =>
    obtain ⟨a, ha, -, rfl⟩ := step_publishStop hstep
    obtain ⟨r, hr, hfor⟩ := h.attempt a (List.mem_of_getElem? ha)
    refine ⟨h.attempt, h.publish hr (fun x hx ↦ ?_) k⟩
    rw [Delivery.eq_of_mem_log hx]
    exact hfor.stopAssignment
  | run k env =>
    obtain ⟨a, b, out, ha, hnext, rfl⟩ := step_run hstep
    obtain ⟨r, hr, hfor⟩ := h.attempt a (List.mem_of_getElem? ha)
    obtain ⟨hb, hout⟩ := hfor.next hnext
    exact ⟨State.For.set h.attempt hr hb k, h.publish hr hout k⟩

end Orchestrator

/-! ## What a worker keeps -/

namespace Worker

/-- The bots of a fleet are the first ones of its assignment. -/
structure BotFleet.Of (fleet : BotFleet) (cfg : Config) (a : BotAssignment) : Prop where
  phase : a.phase ≠ "stop"
  runId : fleet.runId = a.runId
  length_le : (fleet.bots.length : ℤ) ≤ max 0 (cfg.botCount a)
  bots : ∀ bot ∈ fleet.bots, ∃ i, bot = cfg.bot a i

/-- The fleet has been started, and its bots may still be running. -/
def State.Holds (s : State) (fleet : BotFleet) : Prop :=
  (∃ runId, s.fleets.lookup runId = some fleet) ∨
  (∃ n a, s.consumer = .replacing n a (some fleet) ∨ s.consumer = .spawning n a fleet) ∨
  ∃ n runId, s.timers.lookup n = some ⟨runId, .stopping (some fleet)⟩

theorem State.InUse.exists_holds {s : State} {n : ℕ} (h : s.InUse n) :
    ∃ fleet, s.Holds fleet ∧ fleet.owner = n := by
  rcases h with ⟨runId, fleet, hlookup, howner⟩ | hholds | ⟨m, runId, fleet, hlookup, howner⟩
  · exact ⟨fleet, .inl ⟨runId, hlookup⟩, howner⟩
  · cases hpc : s.consumer with
    | replacing m a old =>
      rw [hpc] at hholds
      cases old with
      | none => exact hholds.elim
      | some fleet => exact ⟨fleet, .inr (.inl ⟨m, a, .inl hpc⟩), hholds⟩
    | spawning m a fleet =>
      rw [hpc] at hholds
      exact ⟨fleet, .inr (.inl ⟨m, a, .inr hpc⟩), hholds⟩
    | _ =>
      rw [hpc] at hholds
      exact hholds.elim
  · exact ⟨fleet, .inr (.inr ⟨m, runId, hlookup⟩), howner⟩

section Kept

variable (cfg : Config) (handed : BotAssignment → Prop)

/-- The fleet is that of an assignment the worker was handed. -/
def BotFleet.Kept (fleet : BotFleet) : Prop := ∃ a, handed a ∧ fleet.Of cfg a

def Consumer.Kept : Consumer → Prop
  | .replacing _ a old => handed a ∧ ∀ fleet ∈ old, fleet.Kept cfg handed
  | .spawning _ a fleet => handed a ∧ fleet.Of cfg a
  | _ => True

structure State.Kept (s : State) : Prop where
  fleets : ∀ runId fleet, s.fleets.lookup runId = some fleet → fleet.Kept cfg handed
  consumer : s.consumer.Kept cfg handed
  timers : ∀ n runId fleet, s.timers.lookup n = some ⟨runId, .stopping (some fleet)⟩ →
    fleet.Kept cfg handed

end Kept

variable {cfg : Config} {handed : BotAssignment → Prop} {s s' : State}

theorem State.Kept.of_holds (h : s.Kept cfg handed) {fleet : BotFleet} (hholds : s.Holds fleet) :
    fleet.Kept cfg handed := by
  rcases hholds with ⟨runId, hlookup⟩ | ⟨n, a, hpc | hpc⟩ | ⟨n, runId, hlookup⟩
  · exact h.fleets runId fleet hlookup
  · have hconsumer := h.consumer
    rw [hpc] at hconsumer
    exact hconsumer.2 fleet rfl
  · have hconsumer := h.consumer
    rw [hpc] at hconsumer
    exact ⟨a, hconsumer⟩
  · exact h.timers n runId fleet hlookup

theorem State.kept_initial : State.initial.Kept cfg handed where
  fleets runId fleet h := by simp [State.initial] at h
  consumer := trivial
  timers n runId fleet h := by simp [State.initial] at h

theorem BotFleet.Kept.imp {handed' : BotAssignment → Prop} {fleet : BotFleet}
    (h : fleet.Kept cfg handed) (himp : ∀ a, handed a → handed' a) : fleet.Kept cfg handed' := by
  obtain ⟨a, ha, hof⟩ := h
  exact ⟨a, himp a ha, hof⟩

theorem State.Kept.imp {handed' : BotAssignment → Prop} (h : s.Kept cfg handed)
    (himp : ∀ a, handed a → handed' a) : s.Kept cfg handed' where
  fleets runId fleet hlookup := (h.fleets runId fleet hlookup).imp himp
  consumer := by
    have hconsumer := h.consumer
    cases hpc : s.consumer with
    | replacing n a old =>
      rw [hpc] at hconsumer
      exact ⟨himp a hconsumer.1, fun fleet hfleet ↦ (hconsumer.2 fleet hfleet).imp himp⟩
    | spawning n a fleet =>
      rw [hpc] at hconsumer
      exact ⟨himp a hconsumer.1, hconsumer.2⟩
    | _ => trivial
  timers n runId fleet hlookup := (h.timers n runId fleet hlookup).imp himp

theorem State.Kept.takeFleet (h : s.Kept cfg handed) {cause : Cause} {runId : String} :
    (s.takeFleet cause runId).Kept cfg handed where
  fleets runId' fleet hlookup := h.fleets runId' fleet (State.lookup_of_takeFleet hlookup)
  consumer := by
    rw [State.takeFleet_consumer]
    exact h.consumer
  timers := by
    rw [State.takeFleet_timers]
    exact h.timers

/-- A new timer does not stop a fleet yet. -/
theorem lookup_insert_of_ne_stopping {timers : Finmap fun _ : ℕ ↦ Timer} {n m : ℕ} {t t' : Timer}
    (ht : ∀ old, t.pc ≠ .stopping old) (ht' : ∃ old, t'.pc = .stopping old)
    (h : (timers.insert n t).lookup m = some t') : timers.lookup m = some t' := by
  rcases eq_or_ne m n with rfl | hne
  · rw [Finmap.lookup_insert] at h
    obtain rfl := Option.some_inj.mp h
    obtain ⟨old, hold⟩ := ht'
    exact absurd hold (ht old)
  · rwa [Finmap.lookup_insert_of_ne _ hne] at h

theorem lookup_of_erase {timers : Finmap fun _ : ℕ ↦ Timer} {n m : ℕ} {t : Timer}
    (h : (timers.erase n).lookup m = some t) : timers.lookup m = some t := by
  rcases eq_or_ne m n with rfl | hne
  · rw [Finmap.lookup_erase] at h
    cases h
  · rwa [Finmap.lookup_erase_ne hne] at h

/-- **The step lemma of a worker.** -/
theorem State.Kept.step (h : s.Kept cfg handed) {e : Event}
    (hhanded : ∀ a, e = .receive a → handed a) (hstep : Worker.step cfg s e = some s') :
    s'.Kept cfg handed := by
  have hconsumer := h.consumer
  cases e with
  | test =>
    obtain rfl := step_test hstep
    refine ⟨h.fleets, ?_, h.timers⟩
    dsimp only
    split_ifs <;> trivial
  | empty =>
    obtain rfl := step_empty hstep
    exact ⟨h.fleets, trivial, h.timers⟩
  | receive a =>
    obtain ⟨-, rfl⟩ := step_receive hstep
    exact ⟨h.takeFleet.fleets,
      ⟨hhanded a rfl, fun fleet hfleet ↦ h.fleets a.runId fleet hfleet⟩, h.takeFleet.timers⟩
  | joined =>
    obtain ⟨n, a, old, hpc, rfl⟩ := step_joined hstep
    rw [hpc] at hconsumer
    refine ⟨h.fleets, ?_, h.timers⟩
    dsimp only
    split_ifs with hphase
    · trivial
    · exact ⟨hconsumer.1, hphase, rfl, le_max_left _ _, by simp⟩
  | spawn =>
    obtain ⟨n, a, fleet, hpc, hlt, rfl⟩ := step_spawn hstep
    rw [hpc] at hconsumer
    obtain ⟨ha, hfleet⟩ := hconsumer
    refine ⟨h.fleets, ⟨ha, hfleet.phase, hfleet.runId, ?_, fun bot hbot ↦ ?_⟩, h.timers⟩
    · rw [List.length_append, List.length_singleton]
      push_cast
      omega
    · rcases List.mem_append.mp hbot with hbot | hbot
      · exact hfleet.bots bot hbot
      · exact ⟨_, List.mem_singleton.mp hbot⟩
  | store =>
    obtain ⟨n, a, fleet, hpc, rfl⟩ := step_store hstep
    rw [hpc] at hconsumer
    refine ⟨fun runId fleet' hlookup ↦ ?_, ?_, h.takeFleet.timers⟩
    · rcases eq_or_ne runId a.runId with rfl | hne
      · rw [Finmap.lookup_insert] at hlookup
        obtain rfl := Option.some_inj.mp hlookup
        exact ⟨a, hconsumer⟩
      · rw [Finmap.lookup_insert_of_ne _ hne] at hlookup
        exact h.takeFleet.fleets runId fleet' hlookup
    · dsimp only
      split_ifs <;> trivial
  | arm =>
    obtain ⟨n, a, -, rfl⟩ := step_arm hstep
    refine ⟨h.fleets, trivial, fun m runId fleet hlookup ↦ h.timers m runId fleet ?_⟩
    exact lookup_insert_of_ne_stopping (fun _ ↦ TimerPc.noConfusion) ⟨_, rfl⟩ hlookup
  | fail =>
    rcases step_fail hstep with ⟨n, a, fleet, -, rfl⟩ | ⟨n, a, -, rfl⟩
    · exact ⟨h.fleets, trivial, h.timers⟩
    · exact ⟨h.fleets, trivial, h.timers⟩
  | timeout n =>
    obtain ⟨runId, -, -, rfl⟩ := step_timeout hstep
    refine ⟨h.fleets, h.consumer, fun m runId fleet hlookup ↦ h.timers m runId fleet ?_⟩
    exact lookup_insert_of_ne_stopping (fun _ ↦ TimerPc.noConfusion) ⟨_, rfl⟩ hlookup
  | quit n =>
    obtain rfl := step_quit hstep
    exact ⟨h.fleets, h.consumer,
      fun m runId fleet hlookup ↦ h.timers m runId fleet (lookup_of_erase hlookup)⟩
  | expire n =>
    obtain ⟨runId, -, rfl⟩ := step_expire hstep
    refine ⟨h.takeFleet.fleets, h.takeFleet.consumer, fun m runId' fleet hlookup ↦ ?_⟩
    rcases eq_or_ne m n with rfl | hne
    · rw [Finmap.lookup_insert] at hlookup
      obtain ⟨-, hold⟩ := Timer.mk.inj (Option.some_inj.mp hlookup)
      exact h.fleets runId fleet (TimerPc.stopping.inj hold)
    · rw [Finmap.lookup_insert_of_ne _ hne] at hlookup
      exact h.timers m runId' fleet hlookup
  | finish n =>
    obtain rfl := step_finish hstep
    exact ⟨h.fleets, h.consumer,
      fun m runId fleet hlookup ↦ h.timers m runId fleet (lookup_of_erase hlookup)⟩
  | halt =>
    obtain rfl : { s with running := false } = s' := Option.some_inj.mp hstep
    exact ⟨h.fleets, h.consumer, h.timers⟩
  | wait =>
    obtain rfl := step_wait hstep
    exact ⟨fun runId fleet hlookup ↦ by simp at hlookup, h.consumer, h.timers⟩

end Worker

/-! ## The command path -/

/-- The orchestrator with the command topic, and the workers. -/
structure CommandPath where
  orchestrator : Orchestrator.State
  workers : List Worker.Crew

inductive CommandEvent where
  | orchestrator (e : Orchestrator.Event)
  /-- A worker takes a step of its own, or one of its bots ends. -/
  | worker (w : ℕ) (e : Worker.CrewEvent)
  /-- A worker is handed an entry of the topic. -/
  | deliver (w i : ℕ)

/-- The assignment that an event hands to a worker. -/
def Worker.CrewEvent.handed : CrewEvent → Option BotAssignment
  | .worker (.receive a) => some a
  | _ => none

/-- The assignment is what a worker reads of one for an admitted request. -/
def Worker.BotAssignment.Ordered (accepted : Orchestrator.StartBenchmarkRequest → Prop)
    (a : BotAssignment) : Prop :=
  ∃ r, accepted r ∧ ∃ x : Orchestrator.BotAssignment, x.For r ∧ a = x.received

namespace CommandPath

def initial (workers : ℕ) : CommandPath := ⟨.initial, List.replicate workers .initial⟩

section Step

variable (ocfg : Orchestrator.Config) (wcfg : ℕ → Worker.Config) (wire : Json → Json)

def stepWorker (s : CommandPath) (w : ℕ) (e : Worker.CrewEvent) : Option CommandPath :=
  s.workers[w]?.bind fun crew ↦ (Worker.crewStep (wcfg w) crew e).map fun crew ↦
    { s with workers := s.workers.set w crew }

def step (s : CommandPath) : CommandEvent → Option CommandPath
  | .orchestrator e =>
    (Orchestrator.step ocfg s.orchestrator e).map fun o ↦ { s with orchestrator := o }
  | .worker w e => if e.handed.isSome then none else s.stepWorker wcfg w e
  | .deliver w i =>
    s.orchestrator.topic[i]?.bind fun entry ↦
      (Worker.BotAssignment.fromJson (wire entry.assignment.toJson)).bind fun a ↦
        s.stepWorker wcfg w (.worker (.receive a))

/-- The requests that a step admits. -/
def admits (s : CommandPath) : CommandEvent → List Orchestrator.StartBenchmarkRequest
  | .orchestrator e => s.orchestrator.admits ocfg e
  | _ => []

/-- Everything goes back to requests that were admitted. -/
structure For (accepted : Orchestrator.StartBenchmarkRequest → Prop) (s : CommandPath) : Prop where
  orchestrator : s.orchestrator.For accepted
  workers : ∀ w (crew : Worker.Crew), s.workers[w]? = some crew →
    crew.Manned ∧ crew.worker.Kept (wcfg w) (Worker.BotAssignment.Ordered accepted)

end Step

variable {ocfg : Orchestrator.Config} {wcfg : ℕ → Worker.Config} {wire : Json → Json}
variable {accepted : Orchestrator.StartBenchmarkRequest → Prop} {s s' : CommandPath}

theorem For.imp {accepted' : Orchestrator.StartBenchmarkRequest → Prop} (h : s.For wcfg accepted)
    (himp : ∀ r, accepted r → accepted' r) : s.For wcfg accepted' where
  orchestrator := h.orchestrator.imp himp
  workers := by
    intro w crew hcrew
    obtain ⟨hmanned, hkept⟩ := h.workers w crew hcrew
    refine ⟨hmanned, hkept.imp fun a ha ↦ ?_⟩
    obtain ⟨r, hr, hordered⟩ := ha
    exact ⟨r, himp r hr, hordered⟩

theorem For.stepWorker (h : s.For wcfg accepted) {w : ℕ} {e : Worker.CrewEvent}
    (hhanded : ∀ a, e = .worker (.receive a) → a.Ordered accepted)
    (hstep : s.stepWorker wcfg w e = some s') : s'.For wcfg accepted := by
  obtain ⟨crew, hcrew, hnext⟩ := Option.bind_eq_some_iff.mp hstep
  obtain ⟨crew', hcrew', rfl⟩ := Option.map_eq_some_iff.mp hnext
  obtain ⟨hmanned, hkept⟩ := h.workers w crew hcrew
  have hkept' : crew'.worker.Kept (wcfg w) (Worker.BotAssignment.Ordered accepted) := by
    cases e with
    | ends n =>
      rw [Worker.crewStep] at hcrew'
      split_ifs at hcrew'
      obtain rfl := Option.some_inj.mp hcrew'
      exact hkept
    | worker e =>
      obtain ⟨worker, hworker, rfl⟩ := Option.map_eq_some_iff.mp hcrew'
      exact hkept.step (fun a ha ↦ hhanded a (congrArg _ ha)) hworker
  refine ⟨h.orchestrator, fun w' other hother ↦ ?_⟩
  rcases eq_or_ne w' w with rfl | hne
  · obtain rfl := Option.some_inj.mp ((Pool.getElem?_set hcrew).symm.trans hother)
    exact ⟨hmanned.step hcrew', hkept'⟩
  · exact h.workers w' other ((List.getElem?_set_ne hne.symm).symm.trans hother)

/-- **The step lemma.** -/
theorem For.step (h : s.For wcfg accepted)
    (hwire : ∀ x : Orchestrator.BotAssignment, (wire x.toJson).SameMembers x.toJson)
    (htyped : ∀ r, accepted r → r.Typed ∧ 1 ≤ r.botCount) {e : CommandEvent}
    (hadmits : ∀ r ∈ s.admits ocfg e, accepted r)
    (hstep : s.step ocfg wcfg wire e = some s') : s'.For wcfg accepted := by
  cases e with
  | orchestrator e =>
    obtain ⟨o, ho, rfl⟩ := Option.map_eq_some_iff.mp hstep
    exact ⟨h.orchestrator.step htyped hadmits ho, h.workers⟩
  | worker w e =>
    rw [CommandPath.step] at hstep
    split_ifs at hstep with hhanded
    refine h.stepWorker (fun a he ↦ ?_) hstep
    rw [he] at hhanded
    exact absurd rfl hhanded
  | deliver w i =>
    obtain ⟨entry, hentry, hrest⟩ := Option.bind_eq_some_iff.mp hstep
    obtain ⟨a, hread, hworker⟩ := Option.bind_eq_some_iff.mp hrest
    obtain ⟨r, hr, hfor⟩ := h.orchestrator.topic entry (List.mem_of_getElem? hentry)
    rw [Worker.BotAssignment.fromJson_toJson hfor.typed (hwire entry.assignment)] at hread
    obtain rfl := Option.some_inj.mp hread
    refine h.stepWorker (fun a he ↦ ?_) hworker
    obtain rfl := Worker.Event.receive.inj (Worker.CrewEvent.worker.inj he)
    exact ⟨r, hr, entry.assignment, hfor, rfl⟩

theorem exists_of_mem_admits {e : CommandEvent} {r : Orchestrator.StartBenchmarkRequest}
    (h : r ∈ s.admits ocfg e) : ∃ req uuid now, e = .orchestrator (.start req uuid now) ∧
      req.resolve ocfg uuid = .ok r := by
  cases e with
  | orchestrator e =>
    obtain ⟨req, uuid, now, rfl, hresolve⟩ := Orchestrator.State.exists_of_mem_admits h
    exact ⟨req, uuid, now, rfl, hresolve⟩
  | _ => exact absurd h List.not_mem_nil

theorem for_initial (workers : ℕ) : (initial workers).For wcfg accepted where
  orchestrator := ⟨by simp [initial, Orchestrator.State.initial],
    by simp [initial, Orchestrator.State.initial]⟩
  workers := by
    intro w crew hcrew
    obtain rfl := List.eq_of_mem_replicate (List.mem_of_getElem? hcrew)
    exact ⟨Worker.Crew.manned_initial, Worker.State.kept_initial⟩

end CommandPath

/-! ## Whom the bots serve -/

/-- A request that is admitted has numbers of their type, and a bot at least. -/
theorem Orchestrator.StartBenchmarkRequest.Typed.resolve {cfg : Config} {uuid : String}
    {req r : StartBenchmarkRequest} (h : req.Typed) (hcfg : Json.Fits 32 cfg.defaultOrdersPerSec)
    (hr : req.resolve cfg uuid = .ok r) : r.Typed ∧ 1 ≤ r.botCount := by
  have hresolved := StartBenchmarkRequest.resolve_ok hr
  have hpos := hresolved.bots_pos
  refine ⟨⟨hresolved.botCount ▸ h.botCount, ?_⟩, by rw [hresolved.botCount]; omega⟩
  rw [hresolved.ordersPerSecPerBot]
  split_ifs
  · exact hcfg
  · exact h.ordersPerSecPerBot

/-- Its persona leaves a bot the run, the endpoint, the symbols and the rate. -/
theorem Worker.Bot.new_cfg (hash : String → ℕ) (cfg : BotConfig) :
    (Bot.new hash cfg).cfg.runId = cfg.runId ∧
      (Bot.new hash cfg).cfg.endpointUrl = cfg.endpointUrl ∧
      (Bot.new hash cfg).cfg.symbols = cfg.symbols ∧
      (Bot.new hash cfg).cfg.ordersPerSec = cfg.ordersPerSec := by
  rw [Bot.new]
  dsimp only
  split_ifs <;> exact ⟨rfl, rfl, rfl, rfl⟩

/-- The bots of the fleet do what a request asks for, and in the burst twice as much. -/
structure Worker.BotFleet.Serves (fleet : BotFleet) (hash : String → ℕ) (cfg : Config)
    (r : Orchestrator.StartBenchmarkRequest) : Prop where
  runId : fleet.runId = r.runId
  length_le : (fleet.bots.length : ℤ) ≤ 2 * r.botCount
  capped : (fleet.bots.length : ℤ) ≤ max 0 cfg.maxBotsPerWorker
  bots : ∀ bot ∈ fleet.bots, (Bot.new hash bot).cfg.runId = r.runId ∧
    (Bot.new hash bot).cfg.endpointUrl = r.endpointUrl ∧
    (Bot.new hash bot).cfg.symbols = r.profile.symbols
  rate : 0 < r.profile.ordersPerSecPerBot →
    ∀ bot ∈ fleet.bots, (Bot.new hash bot).cfg.ops ≤ 2 * r.profile.ordersPerSecPerBot

/-- A doubled rate that has wrapped around is replaced by the default of the bots. -/
theorem Worker.BotConfig.ops_le {bot : BotConfig} {rate : ℤ} (hpos : 0 < rate)
    (h : bot.ordersPerSec = rate ∨ bot.ordersPerSec = Orchestrator.toInt (rate * 2)) :
    bot.ops ≤ 2 * rate := by
  have hrate : (0 : ℚ) < rate := by exact_mod_cast hpos
  rw [ops]
  rcases h with h | h
  · rw [h, if_neg (not_le.mpr hrate)]
    linarith
  · rw [h]
    split_ifs with hwrapped
    · have hle : Orchestrator.toInt (rate * 2) ≤ 0 := by exact_mod_cast hwrapped
      have hlarge : 5 ≤ rate := by
        by_contra hsmall
        rw [Orchestrator.toInt_of_inInt ⟨by omega, by omega⟩] at hle
        omega
      have hlarge : (5 : ℚ) ≤ rate := by exact_mod_cast hlarge
      linarith
    · have hle : Orchestrator.toInt (rate * 2) ≤ rate * 2 := Orchestrator.toInt_le (by omega)
      have hle : (Orchestrator.toInt (rate * 2) : ℚ) ≤ rate * 2 := by exact_mod_cast hle
      linarith

theorem Worker.BotFleet.Of.serves {fleet : BotFleet} {cfg : Config}
    {r : Orchestrator.StartBenchmarkRequest} {x : Orchestrator.BotAssignment}
    (h : fleet.Of cfg x.received) (hx : x.For r) (hbots : 1 ≤ r.botCount) (hash : String → ℕ) :
    fleet.Serves hash cfg r := by
  obtain ⟨hcount, hrate, hsymbols⟩ := hx.work h.phase
  have hmin : cfg.botCount x.received ≤ x.botCount ∧
      cfg.botCount x.received ≤ cfg.maxBotsPerWorker := by
    have hreceived : x.received.botCount = x.botCount := rfl
    rw [Config.botCount, hreceived]
    split_ifs
    · exact ⟨by omega, le_rfl⟩
    · exact ⟨le_rfl, by omega⟩
  have hlength := h.length_le
  refine ⟨h.runId.trans hx.runId, by omega, by omega, fun bot hbot ↦ ?_, fun hpos bot hbot ↦ ?_⟩
  · obtain ⟨i, rfl⟩ := h.bots bot hbot
    obtain ⟨hrunId, hendpointUrl, hsymbols', -⟩ := Worker.Bot.new_cfg hash (cfg.bot x.received i)
    exact ⟨hrunId.trans hx.runId, hendpointUrl.trans hx.endpointUrl, hsymbols'.trans hsymbols⟩
  · obtain ⟨i, rfl⟩ := h.bots bot hbot
    obtain ⟨-, -, -, hordersPerSec⟩ := Worker.Bot.new_cfg hash (cfg.bot x.received i)
    refine Worker.BotConfig.ops_le hpos ?_
    rw [hordersPerSec]
    exact hrate

/-- The requests are those that were admitted, and everything goes back to them. -/
structure CommandPath.Accounted (wcfg : ℕ → Worker.Config)
    (log : List Orchestrator.StartBenchmarkRequest) (s : CommandPath) : Prop where
  typed : ∀ r ∈ log, r.Typed ∧ 1 ≤ r.botCount
  goesBack : s.For wcfg (· ∈ log)

/-- **The run lemma.** -/
theorem CommandPath.accounted_of_exec {ocfg : Orchestrator.Config} {wcfg : ℕ → Worker.Config}
    {wire : Json → Json}
    (hwire : ∀ x : Orchestrator.BotAssignment, (wire x.toJson).SameMembers x.toJson)
    (hcfg : Json.Fits 32 ocfg.defaultOrdersPerSec) {workers : ℕ} {es : List CommandEvent}
    (htyped : ∀ req uuid now, .orchestrator (.start req uuid now) ∈ es → req.Typed)
    {s : CommandPath} (h : exec (step ocfg wcfg wire) (initial workers) es = some s) :
    s.Accounted wcfg (emitted (step ocfg wcfg wire) (admits ocfg) (initial workers) es) := by
  refine (guarded_of_forall_mem (· ∈ es) (fun _ he ↦ he) _).exec_emitted (l := [])
    (P := Accounted wcfg) (fun log t e t' ht he hstep ↦ ?_) ⟨by simp, for_initial workers⟩ h
  have hlog : ∀ r ∈ log ++ t.admits ocfg e, r.Typed ∧ 1 ≤ r.botCount := by
    intro r hr
    rcases List.mem_append.mp hr with hr | hr
    · exact ht.typed r hr
    · obtain ⟨req, uuid, now, hevent, hresolve⟩ := exists_of_mem_admits hr
      exact (htyped req uuid now (hevent ▸ he)).resolve hcfg hresolve
  have hfor := ht.goesBack.imp fun r hr ↦ List.mem_append_left (t.admits ocfg e) hr
  exact ⟨hlog, hfor.step hwire hlog (fun r hr ↦ List.mem_append_right _ hr) hstep⟩

/-- **Every bot was ordered.** Whatever orchestrator, topic and workers do, a bot runs only in a
fleet that its worker holds, and each of these fleets serves a request that the orchestrator has
admitted. -/
theorem bots_ordered {ocfg : Orchestrator.Config} (wcfg : ℕ → Worker.Config) (hash : String → ℕ)
    {wire : Json → Json}
    (hwire : ∀ x : Orchestrator.BotAssignment, (wire x.toJson).SameMembers x.toJson)
    (hcfg : Json.Fits 32 ocfg.defaultOrdersPerSec) {workers : ℕ} {es : List CommandEvent}
    (htyped : ∀ req uuid now, .orchestrator (.start req uuid now) ∈ es → req.Typed)
    {s : CommandPath} (h : exec (CommandPath.step ocfg wcfg wire) (.initial workers) es = some s) :
    ∀ (w : ℕ) (crew : Worker.Crew), s.workers[w]? = some crew →
      (∀ n ∈ crew.bots, ∃ fleet, crew.worker.Holds fleet ∧ fleet.owner = n) ∧
      ∀ fleet, crew.worker.Holds fleet →
        ∃ r ∈ emitted (CommandPath.step ocfg wcfg wire) (CommandPath.admits ocfg)
          (.initial workers) es, fleet.Serves hash (wcfg w) r := by
  obtain ⟨hlog, hfor⟩ := CommandPath.accounted_of_exec hwire hcfg htyped h
  intro w crew hcrew
  obtain ⟨hmanned, hkept⟩ := hfor.workers w crew hcrew
  refine ⟨fun n hn ↦ (hmanned.bots n hn).exists_holds, fun fleet hholds ↦ ?_⟩
  obtain ⟨a, ⟨r, hr, x, hx, rfl⟩, hof⟩ := hkept.of_holds hholds
  exact ⟨r, hr, hof.serves hx (hlog r hr).2 hash⟩

/-- A run is started and its warmup published; a worker is handed it and starts the one bot. -/
def firstBot : List CommandEvent :=
  [.orchestrator (.start Orchestrator.sampleRequest "" "12:00:00"),
    .orchestrator (.run 0 ⟨"12:00:01", .sent⟩), .orchestrator (.run 0 ⟨"12:00:02", .sent⟩),
    .orchestrator (.run 0 ⟨"12:00:03", .sent⟩), .worker 0 (.worker .test), .deliver 0 0,
    .worker 0 (.worker .joined), .worker 0 (.worker .spawn), .worker 0 (.worker .store)]

/-- The hash plays no role here. -/
theorem bots_ordered_firstBot : ∃ s crew fleet,
    exec (CommandPath.step Orchestrator.sampleConfig (fun _ ↦ ⟨"worker", 50⟩) Json.sorted)
      (.initial 1) firstBot = some s ∧ s.workers[0]? = some crew ∧ crew.bots = {0} ∧
    crew.worker.Holds fleet ∧ fleet.owner = 0 ∧
    ∃ r ∈ emitted (CommandPath.step Orchestrator.sampleConfig (fun _ ↦ ⟨"worker", 50⟩)
        Json.sorted) (CommandPath.admits Orchestrator.sampleConfig) (.initial 1) firstBot,
      fleet.Serves String.length ⟨"worker", 50⟩ r := by
  have hrun : ((exec (CommandPath.step Orchestrator.sampleConfig (fun _ ↦ ⟨"worker", 50⟩)
      Json.sorted) (.initial 1) firstBot).any fun s ↦ s.workers[0]?.any fun crew ↦
        crew.bots = {0}) = true := by
    decide +kernel
  obtain ⟨s, hs, hrun⟩ := (Option.any_eq_true _ _).mp hrun
  obtain ⟨crew, hcrew, hrun⟩ := (Option.any_eq_true _ _).mp hrun
  have hbots := of_decide_eq_true hrun
  obtain ⟨hheld, hserves⟩ := bots_ordered (fun _ ↦ ⟨"worker", 50⟩) String.length
    (fun x ↦ Json.sameMembers_sorted (by simp)) (by decide) (by
      intro req uuid now hmem
      simp only [firstBot, List.mem_cons, List.not_mem_nil, or_false, reduceCtorEq,
        CommandEvent.orchestrator.injEq, Orchestrator.Event.start.injEq] at hmem
      obtain ⟨rfl, -, -⟩ := hmem
      exact ⟨by decide, by decide⟩) hs 0 crew hcrew
  obtain ⟨fleet, hholds, howner⟩ := hheld 0 (hbots ▸ Multiset.mem_singleton_self 0)
  exact ⟨s, crew, fleet, hs, hcrew, hbots, hholds, howner, hserves fleet hholds⟩

end BenchmarkPlatform
