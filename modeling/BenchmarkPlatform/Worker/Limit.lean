import BenchmarkPlatform.Worker.Timers
import Mathlib.Data.Multiset.Filter

/-!
# The limit on the bots of a worker

`max_bots_per_worker` limits the bots of each assignment. Fleets of several runs exist at once, and
a timer takes a fleet out of `fleets_` before it joins the bots, so that all of them together can be
more than that. They are not as long as each fleet, when its bots are about to be started, has room
beside the bots that run then; where it has not, the worker can go on to exceed the limit.

A bot runs from its start until it is joined, or until its own loop ends, at the deadline or with an
exception.
-/

namespace BenchmarkPlatform.Worker

open Lib

/-! ## Bots that run -/

/-- A worker, and for each bot whose thread runs the assignment its fleet was created for. -/
structure Crew where
  worker : State
  bots : Multiset ℕ

inductive CrewEvent where
  | worker (e : Event)
  /-- The loop of a bot ends. -/
  | ends (n : ℕ)

def Crew.initial : Crew := ⟨.initial, 0⟩

/-- The fleets whose bots are joined in a step, by their assignments. -/
def State.joins (s : State) : Event → Multiset ℕ
  | .joined =>
    match s.consumer with
    | .replacing _ _ (some old) => {old.owner}
    | _ => 0
  | .store =>
    match s.consumer with
    | .spawning _ a _ => (s.fleets.lookup a.runId).elim 0 fun fleet ↦ {fleet.owner}
    | _ => 0
  -- the fleet that could not be completed is destroyed
  | .fail =>
    match s.consumer with
    | .spawning _ _ fleet => {fleet.owner}
    | _ => 0
  | .finish n =>
    match s.timers.lookup n with
    | some ⟨_, .stopping (some old)⟩ => {old.owner}
    | _ => 0
  | .wait => s.fleets.entries.map fun e ↦ e.2.owner
  | _ => 0

/-- The assignment that a bot is started for in a step. -/
def State.starts (s : State) : Event → Multiset ℕ
  | .spawn =>
    match s.consumer with
    | .spawning _ _ fleet => {fleet.owner}
    | _ => 0
  | _ => 0

/-- The bots that still run when those joined in a step are gone. -/
def Crew.remaining (c : Crew) (e : Event) : Multiset ℕ := c.bots.filter (· ∉ c.worker.joins e)

def crewStep (cfg : Config) (c : Crew) : CrewEvent → Option Crew
  | .worker e =>
    (step cfg c.worker e).map fun w ↦ ⟨w, c.remaining e + c.worker.starts e⟩
  | .ends n => if n ∈ c.bots then some ⟨c.worker, c.bots.erase n⟩ else none

/-- When the bots of an assignment are about to be started, there is room for them. -/
def Room (cfg : Config) (c : Crew) : CrewEvent → Prop
  | .worker .joined => ∀ n a old, c.worker.consumer = .replacing n a old → a.phase ≠ "stop" →
      ((c.remaining .joined).card : ℤ) + max 0 (cfg.botCount a) ≤ cfg.maxBotsPerWorker
  | _ => True

/-! ## Whose bots run -/

/-- The consumer has taken the fleet out, or is building it. -/
def Consumer.Holds (n : ℕ) : Consumer → Prop
  | .replacing _ _ (some old) => old.owner = n
  | .spawning _ _ fleet => fleet.owner = n
  | _ => False

/-- The fleet of assignment `n` is there: in `fleets_`, or with the consumer, or with a timer. -/
def State.InUse (s : State) (n : ℕ) : Prop :=
  (∃ r fleet, s.fleets.lookup r = some fleet ∧ fleet.owner = n) ∨ s.consumer.Holds n ∨
    ∃ m r fleet, s.timers.lookup m = some ⟨r, .stopping (some fleet)⟩ ∧ fleet.owner = n

variable {cfg : Config} {c c' : Crew} {s s' : State} {e : Event}

theorem State.InUse.mono {n : ℕ} (h : s.InUse n)
    (hfleets : ∀ r fleet, s.fleets.lookup r = some fleet → s'.fleets.lookup r = some fleet)
    (hconsumer : s.consumer.Holds n → s'.consumer.Holds n)
    (htimers : ∀ m r fleet, s.timers.lookup m = some ⟨r, .stopping (some fleet)⟩ →
      s'.timers.lookup m = some ⟨r, .stopping (some fleet)⟩) : s'.InUse n := by
  rcases h with ⟨r, fleet, hf, howner⟩ | hholds | ⟨m, r, fleet, ht, howner⟩
  · exact .inl ⟨r, fleet, hfleets r fleet hf, howner⟩
  · exact .inr (.inl (hconsumer hholds))
  · exact .inr (.inr ⟨m, r, fleet, htimers m r fleet ht, howner⟩)

/-- A timer that has no fleet goes on without one being lost. -/
theorem lookup_insert_of_stopping {timers : Finmap fun _ : ℕ ↦ Timer} {k : ℕ} {t : Timer}
    (hk : ∀ r fleet, timers.lookup k ≠ some ⟨r, .stopping (some fleet)⟩) (m : ℕ) (r : String)
    (fleet : BotFleet) (h : timers.lookup m = some ⟨r, .stopping (some fleet)⟩) :
    (timers.insert k t).lookup m = some ⟨r, .stopping (some fleet)⟩ := by
  have hne : m ≠ k := by
    rintro rfl
    exact hk r fleet h
  rw [Finmap.lookup_insert_of_ne _ hne, h]

/-- What `stop_fleet` does not take out stays in `fleets_`. -/
theorem State.lookup_takeFleet_of_ne {cause : Cause} {runId r : String} {fleet : BotFleet}
    (hr : r ≠ runId) (h : s.fleets.lookup r = some fleet) :
    (s.takeFleet cause runId).fleets.lookup r = some fleet := by
  rw [State.lookup_takeFleet, if_neg hr, h]

section Step

variable {n : ℕ} (h : s.InUse n)
include h

/-- A fleet that is taken out of `fleets_` is with the consumer. -/
theorem State.InUse.receive {a : BotAssignment} (hstep : step cfg s (.receive a) = some s') :
    s'.InUse n := by
  obtain ⟨hpc, rfl⟩ := step_receive hstep
  rcases h with ⟨r, fleet, hf, howner⟩ | hholds | ht
  · by_cases hr : r = a.runId
    -- the consumer has it now
    · refine .inr (.inl ?_)
      rw [← hr, hf]
      exact howner
    · exact .inl ⟨r, fleet, State.lookup_takeFleet_of_ne hr hf, howner⟩
  · simp [hpc, Consumer.Holds] at hholds
  · refine .inr (.inr ?_)
    simpa using ht

theorem State.InUse.joined (hstep : step cfg s .joined = some s') :
    n ∈ s.joins .joined ∨ s'.InUse n := by
  obtain ⟨m, a, old, hpc, rfl⟩ := step_joined hstep
  rcases h with hf | hholds | ht
  · exact .inr (.inl hf)
  · refine .inl ?_
    cases old with
    | none => simp [hpc, Consumer.Holds] at hholds
    | some fleet =>
      rw [hpc] at hholds
      rw [State.joins, hpc]
      exact Multiset.mem_singleton.mpr hholds.symm
  · exact .inr (.inr (.inr ht))

/-- Of two fleets of one run the new one is stored, and the other destroyed. -/
theorem State.InUse.store (hstep : step cfg s .store = some s') :
    n ∈ s.joins .store ∨ s'.InUse n := by
  obtain ⟨m, a, fleet, hpc, rfl⟩ := step_store hstep
  rcases h with ⟨r, fleet', hf, howner⟩ | hholds | ht
  · by_cases hr : r = a.runId
    -- the fleet in its place is destroyed
    · refine .inl ?_
      rw [State.joins, hpc]
      dsimp only
      rw [← hr, hf]
      exact Multiset.mem_singleton.mpr howner.symm
    · refine .inr (.inl ⟨r, fleet', ?_, howner⟩)
      dsimp only
      rw [Finmap.lookup_insert_of_ne _ hr]
      exact State.lookup_takeFleet_of_ne hr hf
  · rw [hpc] at hholds
    exact .inr (.inl ⟨a.runId, fleet, Finmap.lookup_insert _, hholds⟩)
  · refine .inr (.inr (.inr ?_))
    simpa using ht

theorem State.InUse.fail (hstep : step cfg s .fail = some s') :
    n ∈ s.joins .fail ∨ s'.InUse n := by
  rcases step_fail hstep with ⟨m, a, fleet, hpc, rfl⟩ | ⟨m, a, hpc, rfl⟩
  · rcases h with hf | hholds | ht
    · exact .inr (.inl hf)
    -- the fleet is destroyed
    · rw [hpc] at hholds
      refine .inl ?_
      rw [State.joins, hpc]
      exact Multiset.mem_singleton.mpr hholds.symm
    · exact .inr (.inr (.inr ht))
  · rcases h with hf | hholds | ht
    · exact .inr (.inl hf)
    · simp [hpc, Consumer.Holds] at hholds
    · exact .inr (.inr (.inr ht))

/-- A fleet that is taken out of `fleets_` is with the timer. -/
theorem State.InUse.expire {k : ℕ} (hstep : step cfg s (.expire k) = some s') : s'.InUse n := by
  obtain ⟨runId, hlookup, rfl⟩ := step_expire hstep
  rcases h with ⟨r, fleet, hf, howner⟩ | hholds | ⟨m, r, fleet, ht, howner⟩
  · by_cases hr : r = runId
    -- the timer has it now
    · refine .inr (.inr ⟨k, runId, fleet, ?_, howner⟩)
      dsimp only
      rw [Finmap.lookup_insert, ← hr, hf]
    · exact .inl ⟨r, fleet, State.lookup_takeFleet_of_ne hr hf, howner⟩
  · refine .inr (.inl ?_)
    simpa using hholds
  · refine .inr (.inr ⟨m, r, fleet, ?_, howner⟩)
    exact lookup_insert_of_stopping (fun _ _ ht ↦ by simp [hlookup] at ht) m r fleet ht

theorem State.InUse.finish {k : ℕ} (hstep : step cfg s (.finish k) = some s') :
    n ∈ s.joins (.finish k) ∨ s'.InUse n := by
  rw [step_finish hstep]
  rcases h with hf | hholds | ⟨m, r, fleet, ht, howner⟩
  · exact .inr (.inl hf)
  · exact .inr (.inr (.inl hholds))
  · by_cases hm : m = k
    · refine .inl ?_
      rw [State.joins, ← hm, ht]
      exact Multiset.mem_singleton.mpr howner.symm
    · exact .inr (.inr (.inr ⟨m, r, fleet, (Finmap.lookup_erase_ne hm).trans ht, howner⟩))

/-- When the consumer and all timers are gone, every fleet is in `fleets_`. -/
theorem State.InUse.wait (hstep : step cfg s .wait = some s') : n ∈ s.joins .wait := by
  rw [BenchmarkPlatform.Worker.step] at hstep
  split_ifs at hstep with hexited
  rcases h with ⟨r, fleet, hf, howner⟩ | hholds | ⟨m, r, fleet, ht, -⟩
  · exact Multiset.mem_map.mpr ⟨⟨r, fleet⟩, Finmap.mem_lookup_iff.mp hf, howner⟩
  · simp [hexited.1, Consumer.Holds] at hholds
  · have hm : m ∈ s.timers.keys := Finmap.mem_keys.mpr (Finmap.mem_of_lookup_eq_some ht)
    rw [hexited.2] at hm
    exact absurd hm (Finset.notMem_empty m)

end Step

/-- A fleet whose bots are not joined in a step is there after it. -/
theorem State.InUse.step {n : ℕ} (h : s.InUse n) (hinv : s.Inv)
    (hstep : step cfg s e = some s') : n ∈ s.joins e ∨ s'.InUse n := by
  cases e with
  | test =>
    rw [BenchmarkPlatform.Worker.step] at hstep
    split at hstep
    · rename_i hpc
      obtain rfl := Option.some_inj.mp hstep
      exact .inr (h.mono (fun _ _ hf ↦ hf) (fun hholds ↦ by simp [hpc, Consumer.Holds] at hholds)
        fun _ _ _ ht ↦ ht)
    · simp at hstep
  | empty =>
    rw [BenchmarkPlatform.Worker.step] at hstep
    split at hstep
    · rename_i hpc
      obtain rfl := Option.some_inj.mp hstep
      exact .inr (h.mono (fun _ _ hf ↦ hf) (fun hholds ↦ by simp [hpc, Consumer.Holds] at hholds)
        fun _ _ _ ht ↦ ht)
    · simp at hstep
  | receive a => exact .inr (h.receive hstep)
  | joined => exact h.joined hstep
  | spawn =>
    obtain ⟨m, a, fleet, hpc, -, rfl⟩ := step_spawn hstep
    exact .inr (h.mono (fun _ _ hf ↦ hf) (fun hholds ↦ by rw [hpc] at hholds; exact hholds)
      fun _ _ _ ht ↦ ht)
  | store => exact h.store hstep
  | arm =>
    obtain ⟨m, a, hpc, rfl⟩ := step_arm hstep
    have hc := hinv.consumer
    rw [hpc] at hc
    refine .inr (h.mono (fun _ _ hf ↦ hf) (fun hholds ↦ by simp [hpc, Consumer.Holds] at hholds)
      (lookup_insert_of_stopping fun r fleet ht ↦ ?_))
    -- no timer has the number of the assignment yet
    exact absurd (hc.2.1 m (Finmap.mem_of_lookup_eq_some ht)) (lt_irrefl m)
  | fail => exact h.fail hstep
  | timeout k =>
    obtain ⟨r, hlookup, -, rfl⟩ := step_timeout hstep
    exact .inr (h.mono (fun _ _ hf ↦ hf) (fun hholds ↦ hholds)
      (lookup_insert_of_stopping fun _ _ ht ↦ by simp [hlookup] at ht))
  | quit k =>
    have heq := step_quit hstep
    rw [BenchmarkPlatform.Worker.step] at hstep
    split at hstep
    · rename_i hlookup
      rw [heq]
      refine .inr (h.mono (fun _ _ hf ↦ hf) (fun hholds ↦ hholds) fun m r fleet ht ↦ ?_)
      have hne : m ≠ k := by
        rintro rfl
        simp [hlookup] at ht
      exact (Finmap.lookup_erase_ne hne).trans ht
    · simp at hstep
  | expire k => exact .inr (h.expire hstep)
  | finish k => exact h.finish hstep
  | halt =>
    rw [BenchmarkPlatform.Worker.step, Option.some_inj] at hstep
    rw [← hstep]
    exact .inr (h.mono (fun _ _ hf ↦ hf) (fun hholds ↦ hholds) fun _ _ _ ht ↦ ht)
  | wait => exact .inl (h.wait hstep)

/-- A bot is started for a fleet that is there. -/
theorem inUse_of_starts {n : ℕ} (h : n ∈ s.starts e) (hstep : step cfg s e = some s') :
    s'.InUse n := by
  cases e with
  | spawn =>
    obtain ⟨m, a, fleet, hpc, -, rfl⟩ := step_spawn hstep
    rw [State.starts, hpc] at h
    exact .inr (.inl (Multiset.mem_singleton.mp h).symm)
  | _ => exact absurd h (Multiset.notMem_zero n)

/-- Bots run only in fleets that are there. -/
structure Crew.Manned (c : Crew) : Prop where
  worker : c.worker.Inv
  bots : ∀ n ∈ c.bots, c.worker.InUse n

theorem Crew.manned_initial : Crew.initial.Manned :=
  ⟨State.inv_initial, fun n hn ↦ absurd hn (Multiset.notMem_zero n)⟩

theorem Crew.Manned.step (h : c.Manned) {e : CrewEvent} (hstep : crewStep cfg c e = some c') :
    c'.Manned := by
  cases e with
  | ends k =>
    rw [crewStep] at hstep
    split_ifs at hstep
    obtain rfl := Option.some_inj.mp hstep
    exact ⟨h.worker, fun n hn ↦ h.bots n (Multiset.mem_of_mem_erase hn)⟩
  | worker e =>
    obtain ⟨w, hw, rfl⟩ := Option.map_eq_some_iff.mp hstep
    refine ⟨step_inv h.worker hw, fun n hn ↦ ?_⟩
    rcases Multiset.mem_add.mp hn with hn | hn
    · obtain ⟨hbots, hjoins⟩ := Multiset.mem_filter.mp hn
      exact ((h.bots n hbots).step h.worker hw).resolve_left hjoins
    · exact inUse_of_starts hn hw

/-! ## Room for the bots still to be started -/

/-- The bots that the consumer will start for the fleet it is at. -/
def Consumer.pending (cfg : Config) : Consumer → ℤ
  | .spawning _ a fleet => max 0 (cfg.botCount a - fleet.bots.length)
  | _ => 0

/-- The bots that run and those that will be started are within the limit. -/
def Crew.Fits (cfg : Config) (c : Crew) : Prop :=
  (c.bots.card : ℤ) + c.worker.consumer.pending cfg ≤ cfg.maxBotsPerWorker

theorem Consumer.pending_nonneg (cfg : Config) (k : Consumer) : 0 ≤ k.pending cfg := by
  cases k with
  | spawning n a fleet => exact le_max_left _ _
  | _ => exact le_refl 0

theorem Crew.card_remaining_le (c : Crew) (e : Event) : (c.remaining e).card ≤ c.bots.card :=
  Multiset.card_le_card (Multiset.filter_le _ _)

/-- Only where a fleet is begun do more bots remain to be started. -/
theorem pending_le_of_step (hjoined : e ≠ .joined) (hspawn : e ≠ .spawn)
    (h : step cfg s e = some s') : s'.consumer.pending cfg ≤ s.consumer.pending cfg := by
  have hnonneg := Consumer.pending_nonneg cfg s.consumer
  cases e with
  | joined => exact absurd rfl hjoined
  | spawn => exact absurd rfl hspawn
  | test =>
    rw [step_test h]
    dsimp only
    split_ifs <;> exact hnonneg
  | empty =>
    rw [step_empty h]
    exact hnonneg
  | receive a =>
    obtain ⟨-, rfl⟩ := step_receive h
    exact hnonneg
  | store =>
    obtain ⟨n, a, fleet, -, rfl⟩ := step_store h
    dsimp only
    split_ifs <;> exact hnonneg
  | arm =>
    obtain ⟨n, a, -, rfl⟩ := step_arm h
    exact hnonneg
  | fail =>
    rcases step_fail h with ⟨n, a, fleet, -, rfl⟩ | ⟨n, a, -, rfl⟩
    · exact hnonneg
    · exact hnonneg
  | timeout n =>
    obtain ⟨r, -, -, rfl⟩ := step_timeout h
    exact le_refl _
  | quit n =>
    rw [step_quit h]
  | expire n =>
    obtain ⟨r, -, rfl⟩ := step_expire h
    dsimp only
    rw [State.takeFleet_consumer]
  | finish n =>
    rw [step_finish h]
  | halt =>
    rw [step, Option.some_inj] at h
    rw [← h]
  | wait =>
    rw [step_wait h]

/-- A step that is taken with room keeps within the limit. -/
theorem Crew.Fits.step (hfits : c.Fits cfg) {e : CrewEvent} (hroom : Room cfg c e)
    (h : crewStep cfg c e = some c') : c'.Fits cfg := by
  cases e with
  | ends n =>
    rw [crewStep] at h
    split_ifs at h
    rw [Option.some_inj] at h
    have hle : ((c.bots.erase n).card : ℤ) ≤ c.bots.card := by
      exact_mod_cast Multiset.card_erase_le
    rw [← h]
    exact (Int.add_le_add_right hle _).trans hfits
  | worker e =>
    obtain ⟨w, hstep, rfl⟩ := Option.map_eq_some_iff.mp h
    have hremaining : ((c.remaining e).card : ℤ) ≤ c.bots.card := by
      exact_mod_cast c.card_remaining_le e
    rw [Crew.Fits] at hfits ⊢
    dsimp only
    rw [Multiset.card_add, Int.natCast_add]
    by_cases hjoined : e = .joined
    · subst hjoined
      obtain ⟨n, a, old, hpc, rfl⟩ := step_joined hstep
      have hold := Consumer.pending_nonneg cfg c.worker.consumer
      have hstarts : c.worker.starts .joined = 0 := rfl
      rw [hstarts]
      dsimp only
      split_ifs with hphase
      · have hidle : Consumer.idle.pending cfg = 0 := rfl
        rw [hidle, Multiset.card_zero]
        omega
      -- a fleet is begun, and nothing of it has been started
      · have hbegun : (Consumer.spawning n a ⟨a.runId, [], n⟩).pending cfg
            = max 0 (cfg.botCount a) := by simp [Consumer.pending]
        have hspace := hroom n a old hpc hphase
        rw [hbegun, Multiset.card_zero]
        omega
    · by_cases hspawn : e = .spawn
      · subst hspawn
        obtain ⟨n, a, fleet, hpc, hlt, rfl⟩ := step_spawn hstep
        have hstarts : (c.worker.starts .spawn).card = 1 := by
          rw [State.starts, hpc]
          rfl
        rw [hpc, Consumer.pending] at hfits
        rw [hstarts, Consumer.pending]
        rw [List.length_append, List.length_singleton]
        omega
      · have hpending := pending_le_of_step hjoined hspawn hstep
        have hstarts : c.worker.starts e = 0 := by
          cases e with
          | spawn => exact absurd rfl hspawn
          | _ => rfl
        rw [hstarts, Multiset.card_zero]
        omega

/-! ## Runs without room -/

/-- The consumer can go on to start the bots of its fleet while all others run. -/
theorem exec_spawns (cfg : Config) (count : ℕ) {n : ℕ} {a : BotAssignment} {fleet : BotFleet}
    (hpc : c.worker.consumer = .spawning n a fleet)
    (hcount : (fleet.bots.length : ℤ) + count ≤ max (fleet.bots.length : ℤ) (cfg.botCount a)) :
    ∃ c', exec (crewStep cfg) c (List.replicate count (.worker .spawn)) = some c' ∧
      c'.bots.card = c.bots.card + count := by
  induction count generalizing c fleet with
  | zero => exact ⟨c, rfl, rfl⟩
  | succ count ih =>
    have hlt : (fleet.bots.length : ℤ) < cfg.botCount a := by omega
    have hstep : step cfg c.worker .spawn = some { c.worker with
        consumer := .spawning n a { fleet with
          bots := fleet.bots ++ [cfg.bot a fleet.bots.length] } } := by
      rw [step, hpc]
      exact if_pos hlt
    have hbots : c.remaining .spawn + c.worker.starts .spawn = c.bots + {fleet.owner} := by
      rw [State.starts, hpc]
      exact congrArg (· + _) (Multiset.filter_eq_self.mpr fun _ _ ↦ Multiset.notMem_zero _)
    have hcrew : crewStep cfg c (.worker .spawn) = some ⟨{ c.worker with
        consumer := .spawning n a { fleet with
          bots := fleet.bots ++ [cfg.bot a fleet.bots.length] } }, c.bots + {fleet.owner}⟩ := by
      rw [crewStep, hstep, Option.map_some, hbots]
    obtain ⟨c', hexec, hcard⟩ := ih (c := ⟨{ c.worker with
        consumer := .spawning n a { fleet with
          bots := fleet.bots ++ [cfg.bot a fleet.bots.length] } }, c.bots + {fleet.owner}⟩) rfl
      (by rw [List.length_append, List.length_singleton]; omega)
    refine ⟨c', ?_, ?_⟩
    · rw [List.replicate_succ, exec_cons, hcrew]
      exact hexec
    · rw [hcard, Multiset.card_add, Multiset.card_singleton]
      omega

/-- Where there is no room, the bots that are about to be started exceed the limit. -/
theorem exceeds_of_not_room {e : CrewEvent} (hroom : ¬Room cfg c e)
    (h : crewStep cfg c e = some c') : e = .worker .joined ∧ ∃ count c'',
      exec (crewStep cfg) c' (List.replicate count (.worker .spawn)) = some c'' ∧
        cfg.maxBotsPerWorker < c''.bots.card := by
  cases e with
  | ends n => exact absurd trivial hroom
  | worker e =>
    cases e with
    | joined =>
      obtain ⟨w, hstep, rfl⟩ := Option.map_eq_some_iff.mp h
      obtain ⟨n, a, old, hpc, rfl⟩ := step_joined hstep
      have hnoRoom : a.phase ≠ "stop" ∧ cfg.maxBotsPerWorker
          < ((c.remaining .joined).card : ℤ) + max 0 (cfg.botCount a) := by
        by_contra hcon
        refine hroom fun n' a' old' hpc' hphase ↦ ?_
        rw [hpc] at hpc'
        cases hpc'
        by_contra hexceeds
        exact hcon ⟨hphase, not_le.mp hexceeds⟩
      have hconsumer : (if a.phase = "stop" then Consumer.idle else .spawning n a ⟨a.runId, [], n⟩)
          = .spawning n a ⟨a.runId, [], n⟩ := if_neg hnoRoom.1
      obtain ⟨c'', hexec, hcard⟩ := exec_spawns cfg (max 0 (cfg.botCount a)).toNat
        (c := ⟨{ c.worker with
          consumer := if a.phase = "stop" then .idle else .spawning n a ⟨a.runId, [], n⟩ },
          c.remaining .joined + c.worker.starts .joined⟩) hconsumer
        (by rw [List.length_nil]; omega)
      refine ⟨rfl, _, c'', hexec, ?_⟩
      have hstarts : c.worker.starts .joined = 0 := rfl
      rw [hcard, hstarts, add_zero]
      dsimp only
      omega
    | _ => exact absurd trivial hroom

/-- **When the limit holds for the worker.** In every run in which each fleet has room for its bots
when they are about to be started, no more bots run than the limit allows. After any step taken
against that condition, the bots of that fleet are started next and the limit is exceeded. -/
theorem bots_within_limit (cfg : Config) :
    (0 ≤ cfg.maxBotsPerWorker → ∀ es c, Guarded (crewStep cfg) (Room cfg) .initial es →
      exec (crewStep cfg) .initial es = some c → (c.bots.card : ℤ) ≤ cfg.maxBotsPerWorker) ∧
    ∀ es c e c', exec (crewStep cfg) .initial es = some c → crewStep cfg c e = some c' →
      ¬Room cfg c e → e = .worker .joined ∧ ∃ count c'',
        exec (crewStep cfg) c' (List.replicate count (.worker .spawn)) = some c'' ∧
          cfg.maxBotsPerWorker < c''.bots.card := by
  constructor
  · intro hlimit es c hguard hexec
    have hinitial : Crew.initial.Fits cfg := hlimit
    have hfits : c.Fits cfg := hguard.invariant (fun _ _ _ h hroom hstep ↦ h.step hroom hstep)
      hinitial hexec
    have hpending := Consumer.pending_nonneg cfg c.worker.consumer
    rw [Crew.Fits] at hfits
    omega
  · intro es c e c' _ hstep hroom
    exact exceeds_of_not_room hroom hstep

/-- Assignments of two runs that ask for one bot each, and do not say for how long. -/
def twoRuns : List CrewEvent :=
  [.worker .test, .worker (.receive (sampleAssignment "peak" 1 0)), .worker .joined, .worker .spawn,
    .worker .store, .worker .test,
    .worker (.receive { sampleAssignment "peak" 1 0 with runId := "other" }), .worker .joined,
    .worker .spawn]

theorem twoRuns_exceed : ∃ c, exec (crewStep ⟨"w", 1⟩) .initial twoRuns = some c ∧
    1 < c.bots.card := by
  have hrun : ((exec (crewStep ⟨"w", 1⟩) .initial twoRuns).any fun c ↦
      decide (1 < c.bots.card)) = true := by decide +kernel
  obtain ⟨c, hc, hcard⟩ := (Option.any_eq_true _ _).mp hrun
  exact ⟨c, hc, of_decide_eq_true hcard⟩

end BenchmarkPlatform.Worker
