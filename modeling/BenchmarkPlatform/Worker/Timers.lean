import BenchmarkPlatform.Worker.Fleet

/-!
# Which timers stop which fleets

A timer thread remembers the run it was started for, not the fleet. It stops whatever fleet the run
has when it expires, so it stops its own only as long as no later assignment of the run has been
given a fleet in the meantime. The orchestrator's ramp does exactly that: the last ramp assignment
lasts at least two seconds and the peak assignment follows it at once.

The module proves both halves. In every run in which no fleet is stored while an older timer of its
run can still expire, each fleet is stopped by its own timer, by a later assignment of its run or by
the shutdown. Wherever a fleet is stored against that condition, the older timer can go on to stop
it.
-/

namespace BenchmarkPlatform.Worker

open Lib

/-! ## Who may stop a fleet -/

/-- A fleet is stopped by its own timer, by a later assignment of its run, or by the shutdown; one
that has not been completed, by the failure of its own assignment. -/
def Cause.Legit (fleet : BotFleet) : Cause → Prop
  | .timer n => n = fleet.owner
  | .assignment n a => fleet.owner < n ∧ a.runId = fleet.runId
  | .unfinished n => n = fleet.owner
  | .shutdown => True

instance (fleet : BotFleet) : DecidablePred (Cause.Legit fleet)
  | .timer _ | .unfinished _ => inferInstanceAs (Decidable (_ = _))
  | .assignment _ _ => inferInstanceAs (Decidable (_ ∧ _))
  | .shutdown => inferInstanceAs (Decidable True)

def State.StopsLegit (s : State) : Prop := ∀ st ∈ s.stops, st.cause.Legit st.fleet

instance : DecidablePred State.StopsLegit := fun s ↦
  inferInstanceAs (Decidable (∀ st ∈ s.stops, st.cause.Legit st.fleet))

/-- The timer of assignment `n` can still stop a fleet of the run. -/
def State.Pending (s : State) (n : ℕ) (runId : String) : Prop :=
  ∃ t, s.timers.lookup n = some t ∧ t.runId = runId ∧
    (t.pc = .expired ∨ t.pc = .waiting ∧ s.running = true)

/-- No fleet is stored while a timer of its run can still expire. -/
def NoPendingTimer (s : State) : Event → Prop
  | .store => ∀ n a fleet, s.consumer = .spawning n a fleet → ∀ m, ¬s.Pending m a.runId
  | _ => True

/-! ## Taking a fleet out -/

section

variable (s : State) (cause : Cause) (runId : String)

@[simp] theorem State.takeFleet_running : (s.takeFleet cause runId).running = s.running := by
  rw [State.takeFleet]
  split <;> rfl

@[simp] theorem State.takeFleet_consumer : (s.takeFleet cause runId).consumer = s.consumer := by
  rw [State.takeFleet]
  split <;> rfl

@[simp] theorem State.takeFleet_timers : (s.takeFleet cause runId).timers = s.timers := by
  rw [State.takeFleet]
  split <;> rfl

@[simp] theorem State.takeFleet_received : (s.takeFleet cause runId).received = s.received := by
  rw [State.takeFleet]
  split <;> rfl

theorem State.lookup_takeFleet (r : String) : (s.takeFleet cause runId).fleets.lookup r
    = if r = runId then none else s.fleets.lookup r := by
  rw [State.takeFleet]
  split
  · rename_i hnone
    split_ifs with hr
    · rw [hr, hnone]
    · rfl
  · split_ifs with hr
    · rw [hr, Finmap.lookup_erase]
    · rw [Finmap.lookup_erase_ne hr]

theorem State.mem_stops_takeFleet (st : Stop) : st ∈ (s.takeFleet cause runId).stops ↔
    st ∈ s.stops ∨ ∃ fleet, s.fleets.lookup runId = some fleet ∧ st = ⟨fleet, cause⟩ := by
  rw [State.takeFleet]
  split
  · rename_i hnone
    simp [hnone]
  · rename_i fleet hsome
    simp [hsome, or_comm]

end

/-! ## What each step does -/

variable {cfg : Config} {s s' : State}

theorem step_test (h : step cfg s .test = some s') :
    s' = { s with consumer := if s.running then .polling else .exited } := by
  rw [step] at h
  split at h
  · exact (Option.some_inj.mp h).symm
  · simp at h

theorem step_empty (h : step cfg s .empty = some s') : s' = { s with consumer := .idle } := by
  rw [step] at h
  split at h
  · exact (Option.some_inj.mp h).symm
  · simp at h

theorem step_receive {a : BotAssignment} (h : step cfg s (.receive a) = some s') :
    s.consumer = .polling ∧ s' = { s.takeFleet (.assignment s.received a) a.runId with
      consumer := .replacing s.received a (s.fleets.lookup a.runId)
      received := s.received + 1 } := by
  rw [step] at h
  split at h
  · rename_i hpc
    exact ⟨hpc, (Option.some_inj.mp h).symm⟩
  · simp at h

theorem step_joined (h : step cfg s .joined = some s') : ∃ n a old,
    s.consumer = .replacing n a old ∧ s' = { s with
      consumer := if a.phase = "stop" then .idle else .spawning n a ⟨a.runId, [], n⟩ } := by
  rw [step] at h
  split at h
  · rename_i n a old hpc
    exact ⟨n, a, old, hpc, (Option.some_inj.mp h).symm⟩
  · simp at h

theorem step_spawn (h : step cfg s .spawn = some s') : ∃ n a fleet,
    s.consumer = .spawning n a fleet ∧ (fleet.bots.length : ℤ) < cfg.botCount a ∧
      s' = { s with
        consumer := .spawning n a
          { fleet with bots := fleet.bots ++ [cfg.bot a fleet.bots.length] } } := by
  rw [step] at h
  split at h
  · rename_i n a fleet hpc
    split_ifs at h with hlt
    exact ⟨n, a, fleet, hpc, hlt, (Option.some_inj.mp h).symm⟩
  · simp at h

theorem step_store (h : step cfg s .store = some s') : ∃ n a fleet,
    s.consumer = .spawning n a fleet ∧ s' = { s.takeFleet (.assignment n a) a.runId with
      fleets := (s.takeFleet (.assignment n a) a.runId).fleets.insert a.runId fleet
      consumer := if 0 < a.durationMs then .arming n a else .idle } := by
  rw [step] at h
  split at h
  · rename_i n a fleet hpc
    by_cases hfull : (fleet.bots.length : ℤ) < cfg.botCount a
    · rw [if_pos hfull] at h
      simp at h
    · rw [if_neg hfull] at h
      exact ⟨n, a, fleet, hpc, (Option.some_inj.mp h).symm⟩
  · simp at h

theorem step_arm (h : step cfg s .arm = some s') : ∃ n a, s.consumer = .arming n a ∧
    s' = { s with timers := s.timers.insert n ⟨a.runId, .waiting⟩, consumer := .idle } := by
  rw [step] at h
  split at h
  · rename_i n a hpc
    exact ⟨n, a, hpc, (Option.some_inj.mp h).symm⟩
  · simp at h

/-- The handling of an assignment fails before its fleet is in `fleets_`, or before its timer is
there. -/
theorem step_fail (h : step cfg s .fail = some s') :
    (∃ n a fleet, s.consumer = .spawning n a fleet ∧
      s' = { s with consumer := .idle, stops := ⟨fleet, .unfinished n⟩ ::ₘ s.stops }) ∨
    ∃ n a, s.consumer = .arming n a ∧ s' = { s with consumer := .idle } := by
  rw [step] at h
  split at h
  · rename_i n a fleet hpc
    exact .inl ⟨n, a, fleet, hpc, (Option.some_inj.mp h).symm⟩
  · rename_i n a hpc
    exact .inr ⟨n, a, hpc, (Option.some_inj.mp h).symm⟩
  · simp at h

theorem step_timeout {n : ℕ} (h : step cfg s (.timeout n) = some s') : ∃ runId,
    s.timers.lookup n = some ⟨runId, .waiting⟩ ∧ s.running = true ∧
      s' = { s with timers := s.timers.insert n ⟨runId, .expired⟩ } := by
  rw [step] at h
  split at h
  · rename_i runId hlookup
    split_ifs at h with hrun
    exact ⟨runId, hlookup, hrun, (Option.some_inj.mp h).symm⟩
  · simp at h

theorem step_quit {n : ℕ} (h : step cfg s (.quit n) = some s') :
    s' = { s with timers := s.timers.erase n } := by
  rw [step] at h
  split at h
  · split_ifs at h
    exact (Option.some_inj.mp h).symm
  · simp at h

theorem step_expire {n : ℕ} (h : step cfg s (.expire n) = some s') : ∃ runId,
    s.timers.lookup n = some ⟨runId, .expired⟩ ∧ s' = { s.takeFleet (.timer n) runId with
      timers := s.timers.insert n ⟨runId, .stopping (s.fleets.lookup runId)⟩ } := by
  rw [step] at h
  split at h
  · rename_i runId hlookup
    exact ⟨runId, hlookup, (Option.some_inj.mp h).symm⟩
  · simp at h

theorem step_finish {n : ℕ} (h : step cfg s (.finish n) = some s') :
    s' = { s with timers := s.timers.erase n } := by
  rw [step] at h
  split at h
  · exact (Option.some_inj.mp h).symm
  · simp at h

theorem step_wait (h : step cfg s .wait = some s') : s' = { s with
    fleets := ∅
    stops := s.stops + s.fleets.entries.map fun e ↦ ⟨e.2, .shutdown⟩ } := by
  rw [step] at h
  split_ifs at h
  exact (Option.some_inj.mp h).symm

/-! ## Numbering -/

/-- What the consumer knows while it handles assignment `n`: it is the last one received, and no
timer is as new. -/
def Consumer.Inv (s : State) : Consumer → Prop
  | .idle | .polling | .exited => True
  | .replacing n a _ => n + 1 = s.received ∧ (∀ m ∈ s.timers, m < n) ∧
      s.fleets.lookup a.runId = none
  | .spawning n a fleet => n + 1 = s.received ∧ (∀ m ∈ s.timers, m < n) ∧
      s.fleets.lookup a.runId = none ∧ fleet.owner = n ∧ fleet.runId = a.runId
  | .arming n a => n + 1 = s.received ∧ (∀ m ∈ s.timers, m < n) ∧
      ∀ fleet, s.fleets.lookup a.runId = some fleet → fleet.owner = n

/-- The invariant of all runs: fleets are filed under their run, and no fleet or timer belongs to an
assignment yet to come. -/
structure State.Inv (s : State) : Prop where
  fleets : ∀ r fleet, s.fleets.lookup r = some fleet → fleet.runId = r ∧ fleet.owner < s.received
  timers : ∀ n ∈ s.timers, n < s.received
  consumer : s.consumer.Inv s

theorem State.inv_initial : State.initial.Inv where
  fleets r fleet h := by simp [State.initial] at h
  timers n h := absurd h Finmap.notMem_empty
  consumer := trivial

/-- Nothing the consumer relies on is lost when fleets and timers go. -/
theorem Consumer.Inv.mono {c : Consumer} (h : c.Inv s) (hreceived : s'.received = s.received)
    (htimers : ∀ m ∈ s'.timers, m ∈ s.timers)
    (hfleets : ∀ r fleet, s'.fleets.lookup r = some fleet → s.fleets.lookup r = some fleet) :
    c.Inv s' := by
  have hnone : ∀ r, s.fleets.lookup r = none → s'.fleets.lookup r = none := by
    intro r hr
    cases hr' : s'.fleets.lookup r with
    | none => rfl
    | some fleet => simp [hfleets r fleet hr'] at hr
  cases c with
  | idle | polling | exited => trivial
  | replacing n a old =>
    exact ⟨hreceived ▸ h.1, fun m hm ↦ h.2.1 m (htimers m hm), hnone _ h.2.2⟩
  | spawning n a fleet =>
    exact ⟨hreceived ▸ h.1, fun m hm ↦ h.2.1 m (htimers m hm), hnone _ h.2.2.1, h.2.2.2⟩
  | arming n a =>
    exact ⟨hreceived ▸ h.1, fun m hm ↦ h.2.1 m (htimers m hm),
      fun fleet hf ↦ h.2.2 fleet (hfleets _ _ hf)⟩

theorem State.Inv.mono (h : s.Inv) (hconsumer : s'.consumer = s.consumer)
    (hreceived : s'.received = s.received) (htimers : ∀ m ∈ s'.timers, m ∈ s.timers)
    (hfleets : ∀ r fleet, s'.fleets.lookup r = some fleet → s.fleets.lookup r = some fleet) :
    s'.Inv where
  fleets r fleet hf := hreceived ▸ h.fleets r fleet (hfleets r fleet hf)
  timers n hn := hreceived ▸ h.timers n (htimers n hn)
  consumer := hconsumer ▸ h.consumer.mono hreceived htimers hfleets

theorem State.lookup_of_takeFleet {cause : Cause} {runId r : String} {fleet : BotFleet}
    (h : (s.takeFleet cause runId).fleets.lookup r = some fleet) :
    s.fleets.lookup r = some fleet := by
  rw [State.lookup_takeFleet] at h
  split_ifs at h
  exact h

/-- Moving a timer on adds no number. -/
theorem mem_insert_of_lookup {timers : Finmap fun _ : ℕ ↦ Timer} {n : ℕ} {t t' : Timer}
    (h : timers.lookup n = some t) : ∀ m ∈ timers.insert n t', m ∈ timers := by
  intro m hm
  rcases Finmap.mem_insert.mp hm with rfl | hm
  · exact Finmap.mem_of_lookup_eq_some h
  · exact hm

theorem step_inv (h : s.Inv) {e : Event} (hstep : step cfg s e = some s') : s'.Inv := by
  cases e with
  | test =>
    rw [step_test hstep]
    refine ⟨h.fleets, h.timers, ?_⟩
    dsimp only
    split_ifs <;> trivial
  | empty =>
    rw [step_empty hstep]
    exact ⟨h.fleets, h.timers, trivial⟩
  | receive a =>
    obtain ⟨hpc, rfl⟩ := step_receive hstep
    -- the assignment gets the next number, above all owners and timers
    refine ⟨fun r fleet hf ↦ ?_, fun n hn ↦ ?_, rfl, fun m hm ↦ ?_, ?_⟩
    · have hold := h.fleets r fleet (State.lookup_of_takeFleet hf)
      exact ⟨hold.1, Nat.lt_succ_of_lt hold.2⟩
    · exact Nat.lt_succ_of_lt (h.timers n (by simpa using hn))
    · exact h.timers m (by simpa using hm)
    · rw [State.lookup_takeFleet, if_pos rfl]
  | joined =>
    obtain ⟨n, a, old, hpc, rfl⟩ := step_joined hstep
    have hc := h.consumer
    rw [hpc] at hc
    refine ⟨h.fleets, h.timers, ?_⟩
    dsimp only
    split_ifs
    · trivial
    · exact ⟨hc.1, hc.2.1, hc.2.2, rfl, rfl⟩
  | spawn =>
    obtain ⟨n, a, fleet, hpc, -, rfl⟩ := step_spawn hstep
    have hc := h.consumer
    rw [hpc] at hc
    exact ⟨h.fleets, h.timers, hc⟩
  | store =>
    obtain ⟨n, a, fleet, hpc, rfl⟩ := step_store hstep
    have hc := h.consumer
    rw [hpc] at hc
    obtain ⟨hn, htimers, hnone, howner, hrun⟩ := hc
    refine ⟨fun r fleet' hf ↦ ?_, fun m hm ↦ ?_, ?_⟩
    -- the fleet stored is that of the assignment in hand
    · by_cases hr : r = a.runId
      · subst hr
        rw [Finmap.lookup_insert, Option.some_inj] at hf
        subst hf
        exact ⟨hrun, by simp only [State.takeFleet_received]; omega⟩
      · rw [Finmap.lookup_insert_of_ne _ hr] at hf
        simpa using h.fleets r fleet' (State.lookup_of_takeFleet hf)
    · simpa using h.timers m (by simpa using hm)
    · dsimp only
      split_ifs
      · refine ⟨by simpa using hn, by simpa using htimers, fun fleet' hf ↦ ?_⟩
        dsimp only at hf
        rw [Finmap.lookup_insert, Option.some_inj] at hf
        exact hf ▸ howner
      · trivial
  | arm =>
    obtain ⟨n, a, hpc, rfl⟩ := step_arm hstep
    have hc := h.consumer
    rw [hpc] at hc
    refine ⟨h.fleets, fun m hm ↦ ?_, trivial⟩
    rcases Finmap.mem_insert.mp hm with rfl | hm
    · exact Nat.lt_of_succ_le hc.1.le
    · exact h.timers m hm
  | fail =>
    rcases step_fail hstep with ⟨n, a, fleet, -, rfl⟩ | ⟨n, a, -, rfl⟩
    · exact ⟨h.fleets, h.timers, trivial⟩
    · exact ⟨h.fleets, h.timers, trivial⟩
  | timeout n =>
    obtain ⟨runId, hlookup, -, rfl⟩ := step_timeout hstep
    exact h.mono rfl rfl (mem_insert_of_lookup hlookup) fun _ _ hf ↦ hf
  | quit n =>
    rw [step_quit hstep]
    exact h.mono rfl rfl (fun m hm ↦ (Finmap.mem_erase.mp hm).2) fun _ _ hf ↦ hf
  | expire n =>
    obtain ⟨runId, hlookup, rfl⟩ := step_expire hstep
    exact h.mono (s.takeFleet_consumer _ _) (s.takeFleet_received _ _)
      (mem_insert_of_lookup hlookup) fun r fleet hf ↦ State.lookup_of_takeFleet hf
  | finish n =>
    rw [step_finish hstep]
    exact h.mono rfl rfl (fun m hm ↦ (Finmap.mem_erase.mp hm).2) fun _ _ hf ↦ hf
  | halt =>
    rw [step, Option.some_inj] at hstep
    rw [← hstep]
    exact h.mono rfl rfl (fun _ hm ↦ hm) fun _ _ hf ↦ hf
  | wait =>
    rw [step_wait hstep]
    refine h.mono rfl rfl (fun _ hm ↦ hm) fun r fleet hf ↦ ?_
    simp at hf

/-! ## Timers that stay with their fleet -/

/-- A timer that can still expire finds its own fleet or none, and no fleet has been stopped out of
turn. -/
structure State.Timely (s : State) : Prop where
  own : ∀ n r fleet, s.Pending n r → s.fleets.lookup r = some fleet → n = fleet.owner
  legit : s.StopsLegit

theorem State.Timely.mono (h : s.Timely) (hpending : ∀ n r, s'.Pending n r → s.Pending n r)
    (hfleets : ∀ r fleet, s'.fleets.lookup r = some fleet → s.fleets.lookup r = some fleet)
    (hstops : ∀ st ∈ s'.stops, st ∈ s.stops ∨ st.cause.Legit st.fleet) : s'.Timely where
  own n r fleet hp hf := h.own n r fleet (hpending n r hp) (hfleets r fleet hf)
  legit st hst := (hstops st hst).elim (h.legit st) id

/-- Moving the timer of assignment `n` on makes no other timer pending. -/
theorem State.Pending.of_insert {n m : ℕ} {t : Timer} {r : String} (hp : s'.Pending m r)
    (htimers : s'.timers = s.timers.insert n t) (hrunning : s'.running = s.running)
    (hn : s'.Pending n r → s.Pending n r) : s.Pending m r := by
  by_cases hm : m = n
  · subst hm
    exact hn hp
  · obtain ⟨t', ht', hr, hpc⟩ := hp
    rw [htimers, Finmap.lookup_insert_of_ne _ hm] at ht'
    exact ⟨t', ht', hr, hrunning ▸ hpc⟩

theorem State.Pending.of_erase {m n : ℕ} {r : String}
    (hp : State.Pending { s with timers := s.timers.erase n } m r) : s.Pending m r := by
  obtain ⟨t, ht, hr, hpc⟩ := hp
  dsimp only at ht
  by_cases hm : m = n
  · rw [hm, Finmap.lookup_erase] at ht
    simp at ht
  · rw [Finmap.lookup_erase_ne hm] at ht
    exact ⟨t, ht, hr, hpc⟩

/-- Where the consumer stands does not matter. -/
theorem State.Timely.withConsumer (h : s.Timely) (c : Consumer) :
    State.Timely { s with consumer := c } :=
  h.mono (fun _ _ hp ↦ hp) (fun _ _ hf ↦ hf) fun _ hst ↦ Or.inl hst

theorem step_timely (hinv : s.Inv) (h : s.Timely) {e : Event} (hguard : NoPendingTimer s e)
    (hstep : step cfg s e = some s') : s'.Timely := by
  cases e with
  | test =>
    rw [step_test hstep]
    exact h.withConsumer _
  | empty =>
    rw [step_empty hstep]
    exact h.withConsumer _
  | receive a =>
    obtain ⟨-, rfl⟩ := step_receive hstep
    refine h.mono (fun n r hp ↦ ?_) (fun r fleet hf ↦ State.lookup_of_takeFleet hf)
      fun st hst ↦ ?_
    · simpa [State.Pending] using hp
    · rcases (State.mem_stops_takeFleet _ _ _ st).mp hst with hst | ⟨fleet, hfleet, rfl⟩
      · exact Or.inl hst
      · obtain ⟨hrun, howner⟩ := hinv.fleets _ fleet hfleet
        exact Or.inr ⟨howner, hrun.symm⟩
  | joined =>
    obtain ⟨n, a, old, -, rfl⟩ := step_joined hstep
    exact h.withConsumer _
  | spawn =>
    obtain ⟨n, a, fleet, -, -, rfl⟩ := step_spawn hstep
    exact h.withConsumer _
  | store =>
    obtain ⟨n, a, fleet, hpc, rfl⟩ := step_store hstep
    have hc := hinv.consumer
    rw [hpc] at hc
    obtain ⟨-, -, hnone, -, -⟩ := hc
    refine ⟨fun m r fleet' hp hf ↦ ?_, fun st hst ↦ ?_⟩
    · have hp : s.Pending m r := by simpa [State.Pending] using hp
      -- a pending timer of this run is what the guard excludes
      by_cases hr : r = a.runId
      · exact absurd (hr ▸ hp) (hguard n a fleet hpc m)
      · dsimp only at hf
        rw [Finmap.lookup_insert_of_ne _ hr] at hf
        exact h.own m r fleet' hp (State.lookup_of_takeFleet hf)
    · rcases (State.mem_stops_takeFleet _ _ _ st).mp hst with hst | ⟨fleet', hfleet', -⟩
      · exact h.legit st hst
      -- the run had no fleet left when the new one is stored
      · rw [hnone] at hfleet'
        simp at hfleet'
  | arm =>
    obtain ⟨n, a, hpc, rfl⟩ := step_arm hstep
    have hc := hinv.consumer
    rw [hpc] at hc
    refine ⟨fun m r fleet hp hf ↦ ?_, h.legit⟩
    by_cases hm : m = n
    -- the new timer is its fleet's own
    · subst hm
      obtain ⟨t, ht, hr, -⟩ := hp
      dsimp only at ht
      rw [Finmap.lookup_insert, Option.some_inj] at ht
      subst ht
      exact (hc.2.2 fleet (by rw [show a.runId = r from hr]; exact hf)).symm
    · obtain ⟨t, ht, hr, hpc'⟩ := hp
      dsimp only at ht
      rw [Finmap.lookup_insert_of_ne _ hm] at ht
      exact h.own m r fleet ⟨t, ht, hr, hpc'⟩ hf
  | fail =>
    rcases step_fail hstep with ⟨n, a, fleet, hpc, rfl⟩ | ⟨n, a, -, rfl⟩
    · have hc := hinv.consumer
      rw [hpc] at hc
      refine h.mono (fun _ _ hp ↦ hp) (fun _ _ hf ↦ hf) fun st hst ↦ ?_
      rcases Multiset.mem_cons.mp hst with rfl | hst
      · exact .inr hc.2.2.2.1.symm
      · exact .inl hst
    · exact h.withConsumer _
  | timeout n =>
    obtain ⟨runId, hlookup, hrun, rfl⟩ := step_timeout hstep
    refine h.mono (fun m r hp ↦ hp.of_insert (s := s) rfl rfl fun hp ↦ ?_) (fun _ _ hf ↦ hf)
      fun _ hst ↦ Or.inl hst
    obtain ⟨t, ht, hr, -⟩ := hp
    dsimp only at ht
    rw [Finmap.lookup_insert, Option.some_inj] at ht
    subst ht
    exact ⟨_, hlookup, hr, Or.inr ⟨rfl, hrun⟩⟩
  | quit n =>
    rw [step_quit hstep]
    exact h.mono (fun _ _ hp ↦ hp.of_erase) (fun _ _ hf ↦ hf) fun _ hst ↦ Or.inl hst
  | expire n =>
    obtain ⟨runId, hlookup, rfl⟩ := step_expire hstep
    refine h.mono (fun m r hp ↦ hp.of_insert (s := s) rfl (s.takeFleet_running _ _) fun hp ↦ ?_)
      (fun r fleet hf ↦ State.lookup_of_takeFleet hf) fun st hst ↦ ?_
    · obtain ⟨t, ht, -, hpc⟩ := hp
      dsimp only at ht
      rw [Finmap.lookup_insert, Option.some_inj] at ht
      subst ht
      simp at hpc
    · rcases (State.mem_stops_takeFleet _ _ _ st).mp hst with hst | ⟨fleet, hfleet, rfl⟩
      · exact Or.inl hst
      -- the timer that expires finds its own fleet
      · exact Or.inr (h.own n runId fleet ⟨_, hlookup, rfl, Or.inl rfl⟩ hfleet)
  | finish n =>
    rw [step_finish hstep]
    exact h.mono (fun _ _ hp ↦ hp.of_erase) (fun _ _ hf ↦ hf) fun _ hst ↦ Or.inl hst
  | halt =>
    rw [step, Option.some_inj] at hstep
    rw [← hstep]
    refine h.mono (fun n r hp ↦ ?_) (fun _ _ hf ↦ hf) fun _ hst ↦ Or.inl hst
    obtain ⟨t, ht, hr, hpc⟩ := hp
    exact ⟨t, ht, hr, hpc.imp_right fun hw ↦ absurd hw.2 (by simp)⟩
  | wait =>
    rw [step_wait hstep]
    refine h.mono (fun _ _ hp ↦ hp) (fun r fleet hf ↦ by simp at hf) fun st hst ↦ ?_
    rcases Multiset.mem_add.mp hst with hst | hst
    · exact Or.inl hst
    · obtain ⟨e, -, rfl⟩ := Multiset.mem_map.mp hst
      exact Or.inr trivial

/-! ## Timers that do not -/

/-- A timer that can still expire can go on to stop the fleet its run has now. -/
theorem State.Pending.stops (cfg : Config) {n : ℕ} {r : String} {fleet : BotFleet}
    (hp : s.Pending n r) (hf : s.fleets.lookup r = some fleet) :
    ∃ es s', exec (step cfg) s es = some s' ∧ ⟨fleet, .timer n⟩ ∈ s'.stops := by
  have hexpire : ∀ t : State, t.timers.lookup n = some ⟨r, .expired⟩ →
      t.fleets.lookup r = some fleet →
      ∃ s', exec (step cfg) t [.expire n] = some s' ∧ ⟨fleet, .timer n⟩ ∈ s'.stops := by
    intro t ht hfleet
    refine ⟨{ t.takeFleet (.timer n) r with
      timers := t.timers.insert n ⟨r, .stopping (t.fleets.lookup r)⟩ }, ?_, ?_⟩
    · rw [exec_cons, step, ht]
      rfl
    · exact (t.mem_stops_takeFleet _ _ _).mpr (Or.inr ⟨fleet, hfleet, rfl⟩)
  obtain ⟨⟨runId, pc⟩, ht, hr, hpc⟩ := hp
  have hr : runId = r := hr
  subst hr
  rcases hpc with hpc | ⟨hpc, hrun⟩
  · have hpc : pc = .expired := hpc
    subst hpc
    obtain ⟨s', hexec, hmem⟩ := hexpire s ht hf
    exact ⟨_, s', hexec, hmem⟩
  · have hpc : pc = .waiting := hpc
    subst hpc
    obtain ⟨s', hexec, hmem⟩ := hexpire
      { s with timers := s.timers.insert n ⟨runId, .expired⟩ } (Finmap.lookup_insert _) hf
    refine ⟨.timeout n :: [.expire n], s', ?_, hmem⟩
    rw [exec_cons, step, ht]
    dsimp only
    rw [if_pos hrun]
    exact hexec

/-- **When timers stop only their own fleet.** In every run in which no fleet is stored while a
timer of its run can still expire, each fleet is stopped by its own timer, by a later assignment of
its run, or by the shutdown. After any step taken against that condition, the run can go on to stop
the fleet that was stored in that step by the older timer. -/
theorem timers_stop_own_fleet (cfg : Config) :
    (∀ es s, Guarded (step cfg) NoPendingTimer State.initial es →
      exec (step cfg) State.initial es = some s → s.StopsLegit) ∧
    ∀ es s e s', exec (step cfg) State.initial es = some s → step cfg s e = some s' →
      ¬NoPendingTimer s e → ∃ n a fleet m, e = .store ∧ s.consumer = .spawning n a fleet ∧ m < n ∧
        ∃ es' s'', exec (step cfg) s' es' = some s'' ∧ ⟨fleet, .timer m⟩ ∈ s''.stops ∧
          ¬s''.StopsLegit := by
  constructor
  · intro es s hguard hexec
    have htimely : State.initial.Timely := by
      refine ⟨fun n r fleet hp hf ↦ ?_, fun st hst ↦ ?_⟩
      · simp [State.initial] at hf
      · simp [State.initial] at hst
    exact (hguard.invariant (P := fun s : State ↦ s.Inv ∧ s.Timely)
      (fun s e s' h hg hstep ↦ ⟨step_inv h.1 hstep, step_timely h.1 h.2 hg hstep⟩)
      ⟨State.inv_initial, htimely⟩ hexec).2.legit
  · intro es s e s' hexec hstep hguard
    have hinv : s.Inv := exec_invariant (fun s e s' h hstep ↦ step_inv h hstep)
      State.inv_initial hexec
    cases e with
    | store =>
      obtain ⟨n, a, fleet, hpc, rfl⟩ := step_store hstep
      have hc := hinv.consumer
      rw [hpc] at hc
      obtain ⟨-, htimers, -, howner, -⟩ := hc
      -- the step was against the guard, so an older timer is pending; it can expire next
      obtain ⟨m, hp⟩ : ∃ m, s.Pending m a.runId := by
        by_contra hnone
        refine hguard fun n' a' fleet' hpc' m hp ↦ hnone ⟨m, ?_⟩
        rw [hpc] at hpc'
        cases hpc'
        exact hp
      have hlt : m < n := htimers m (by
        obtain ⟨t, ht, -⟩ := hp
        exact Finmap.mem_of_lookup_eq_some ht)
      have hp' : State.Pending { s.takeFleet (.assignment n a) a.runId with
          fleets := (s.takeFleet (.assignment n a) a.runId).fleets.insert a.runId fleet
          consumer := if 0 < a.durationMs then .arming n a else .idle } m a.runId := by
        simpa [State.Pending] using hp
      obtain ⟨es', s'', hexec', hmem⟩ := hp'.stops cfg (Finmap.lookup_insert _)
      refine ⟨n, a, fleet, m, rfl, hpc, hlt, es', s'', hexec', hmem, fun hlegit ↦ ?_⟩
      have hown : m = fleet.owner := hlegit _ hmem
      omega
    | _ => exact absurd trivial hguard

/-! ## The peak fleet is stopped by the timer of the last ramp step -/

/-- An assignment of a run, as the orchestrator publishes it. -/
def sampleAssignment (phase : String) (botCount durationMs : ℤ) : BotAssignment :=
  ⟨"run", "http://sut", botCount, phase, durationMs, 10, 3 / 5, 3 / 10, 1 / 10, ["BTC"]⟩

/-- The last ramp assignment, the peak assignment behind it, then the ramp's timer. -/
def overtakenRun : List Event :=
  [.test, .receive (sampleAssignment "ramp" 1 2000), .joined, .spawn, .store, .arm,
    .test, .receive (sampleAssignment "peak" 1 30000), .joined, .spawn, .store, .arm,
    .timeout 0, .expire 0]

theorem overtakenRun_stops_peak : ∃ s,
    exec (step ⟨"w", 1000⟩) State.initial overtakenRun = some s ∧ ¬s.StopsLegit := by
  have hrun : ((exec (step ⟨"w", 1000⟩) State.initial overtakenRun).any fun s ↦
      !decide s.StopsLegit) = true := by decide +kernel
  obtain ⟨s, hs, hlegit⟩ := (Option.any_eq_true _ _).mp hrun
  exact ⟨s, hs, by simpa using hlegit⟩

end BenchmarkPlatform.Worker
