import Mathlib.Data.Finmap
import BenchmarkPlatform.Lib.Transition
import BenchmarkPlatform.Scoring.Scorer

/-!
# The run ledger

Any number of threads call `Ingest` and `flush_tps`. The map `runs` is under a shared mutex and each
`RunMetrics` under its own, so a call is a sequence of critical sections: `Ingest` looks its run up,
makes it if it is not there and nobody else has made it meanwhile, updates it, and pushes the event;
`flush_tps` collects the run ids and closes one window after the other.

A `RunMetrics` is named by its address, its place in the list of all that were ever made. Two lists
are kept for the statements only: the events whose update is done, and the windows that were closed.

The argument is one invariant: `runs` is the inverse of reading the run id of an object, so that no
run has two objects, and each object accounts for the events and the windows of its run.
-/

namespace BenchmarkPlatform.Scoring

open Lib

/-! ## Data -/

structure Scorer where
  objects : List RunMetrics
  runs : Finmap fun _ : String ↦ ℕ
  telemetryBuf : List TelemetryEvent
  /-- The events of the updates that `Ingest` has completed. -/
  ingested : List TelemetryEvent
  /-- The windows that `flush_tps` has closed, with their run ids. -/
  flushed : List (String × ℕ)

def Scorer.initial : Scorer := ⟨[], ∅, [], [], []⟩

def Scorer.ingestedOf (s : Scorer) (id : String) : List TelemetryEvent :=
  s.ingested.filter (·.benchmarkRunId = id)

def Scorer.flushedOf (s : Scorer) (id : String) : List ℕ :=
  (s.flushed.filter (·.1 = id)).map Prod.snd

inductive ScorerPc where
  /-- `Ingest`: the lookup under the shared lock. -/
  | find (event : TelemetryEvent)
  /-- The second lookup, under the unique lock. -/
  | create (event : TelemetryEvent)
  | update (event : TelemetryEvent) (m : ℕ)
  | push (event : TelemetryEvent)
  /-- `flush_tps`. -/
  | collect
  | flushFind (runIds : List String)
  | flushUpdate (m : ℕ) (runIds : List String)
  | done

def ScorerCall.entry : ScorerCall → ScorerPc
  | .ingest event => .find event
  | .flushTps => .collect

/-- The next critical section of a call. `order` is the order in which the hash map lists its keys
when they are collected. -/
def Scorer.advance (s : Scorer) (order : List String) : ScorerPc → Option (Scorer × ScorerPc)
  | .find event =>
    match s.runs.lookup event.benchmarkRunId with
    | some m => some (s, .update event m)
    | none => some (s, .create event)
  | .create event =>
    match s.runs.lookup event.benchmarkRunId with
    | some m => some (s, .update event m)
    | none =>
      some ({ s with
        objects := s.objects ++ [.new event.benchmarkRunId]
        runs := s.runs.insert event.benchmarkRunId s.objects.length },
        .update event s.objects.length)
  | .update event m =>
    s.objects[m]?.map fun r ↦
      ({ s with objects := s.objects.set m (r.ingest event), ingested := s.ingested ++ [event] },
        .push event)
  | .push event => some ({ s with telemetryBuf := s.telemetryBuf ++ [event] }, .done)
  | .collect =>
    if order.Nodup ∧ order.toFinset = s.runs.keys then some (s, .flushFind order) else none
  | .flushFind [] => some (s, .done)
  | .flushFind (id :: runIds) =>
    match s.runs.lookup id with
    | some m => some (s, .flushUpdate m runIds)
    | none => some (s, .flushFind runIds)
  | .flushUpdate m runIds =>
    s.objects[m]?.map fun r ↦
      ({ s with
        objects := s.objects.set m r.flushTps
        flushed := s.flushed ++ [(r.runId, r.currentTps)] }, .flushFind runIds)
  | .done => none

/-- The scorer and the calls that are on their way. -/
abbrev Engine := Pool Scorer ScorerPc

def Engine.initial : Engine := ⟨.initial, []⟩

def Engine.step : Engine → PoolEvent ScorerCall (List String) → Option Engine :=
  Pool.next ScorerCall.entry Scorer.advance

/-! ## One object -/

/-- The metrics are those of a run with these updates and these closed windows. -/
structure RunMetrics.Accounts (m : RunMetrics) (ingested : List TelemetryEvent)
    (flushed : List ℕ) : Prop where
  total : m.totalOrders = ingested.length
  outcomes : m.totalOrders = m.successfulOrders + m.failedOrders
  windows : flushed.sum + m.currentTps = m.totalOrders
  maxTps : m.maxTps = flushed.foldl max 0
  window : m.tpsWindow = flushed.drop (flushed.length - min 60 flushed.length)
  balanced : m.histogram.totalCount = ∑ i, m.histogram.counts i
  samples : m.histogram.totalCount = ingested.countP (0 < ·.latencyNs)

theorem RunMetrics.accounts_new (id : String) : (RunMetrics.new id).Accounts [] [] :=
  ⟨rfl, rfl, rfl, rfl, rfl, Histogram.empty_balanced, rfl⟩

theorem RunMetrics.Accounts.ingest {m : RunMetrics} {ingested : List TelemetryEvent}
    {flushed : List ℕ} (h : m.Accounts ingested flushed) (event : TelemetryEvent) :
    (m.ingest event).Accounts (ingested ++ [event]) flushed where
  total := by
    rw [List.length_append, ← h.total]
    rfl
  outcomes := by
    have := h.outcomes
    cases hsuccess : event.success <;> simp [RunMetrics.ingest, hsuccess] <;> omega
  windows := by
    have := h.windows
    simp only [RunMetrics.ingest]
    omega
  maxTps := h.maxTps
  window := h.window
  balanced := by
    have hb : m.histogram.Balanced := h.balanced
    have : (m.ingest event).histogram.Balanced := by
      simp only [RunMetrics.ingest]
      split
      · exact hb.recordValue event.latencyNs
      · exact hb
    exact this
  samples := by
    have := h.samples
    rw [List.countP_append, List.countP_singleton]
    by_cases hpos : 0 < event.latencyNs <;> simp [RunMetrics.ingest, hpos, this]

/-- The window is the end of the list of all windows, before and after one more. -/
theorem pushWindow_drop (flushed : List ℕ) (tps : ℕ) :
    pushWindow (flushed.drop (flushed.length - min 60 flushed.length)) tps =
      (flushed ++ [tps]).drop ((flushed ++ [tps]).length - min 60 (flushed ++ [tps]).length) := by
  have hlen : (flushed ++ [tps]).length = flushed.length + 1 := List.length_append
  rw [pushWindow, ← List.drop_append_of_le_length (by omega), List.length_drop, hlen]
  split_ifs with h
  · rw [← List.drop_one, List.drop_drop]
    congr 1
    omega
  · congr 1
    omega

theorem RunMetrics.Accounts.flushTps {m : RunMetrics} {ingested : List TelemetryEvent}
    {flushed : List ℕ} (h : m.Accounts ingested flushed) :
    m.flushTps.Accounts ingested (flushed ++ [m.currentTps]) where
  total := h.total
  outcomes := h.outcomes
  windows := by
    have hsum : (flushed ++ [m.currentTps]).sum = flushed.sum + m.currentTps := by simp
    rw [hsum, h.windows]
    rfl
  maxTps := by
    rw [List.foldl_append, ← h.maxTps, RunMetrics.flushTps]
    simp only [List.foldl_cons, List.foldl_nil]
    split_ifs with hlt
    · exact (Nat.max_eq_right (Nat.le_of_lt hlt)).symm
    · exact (Nat.max_eq_left (Nat.le_of_not_lt hlt)).symm
  window := by
    rw [← pushWindow_drop, ← h.window]
    rfl
  balanced := h.balanced
  samples := h.samples

/-! ## The invariant -/

structure Scorer.Inv (s : Scorer) : Prop where
  runs : ∀ id m, s.runs.lookup id = some m ↔ ∃ r, s.objects[m]? = some r ∧ r.runId = id
  accounts : ∀ r ∈ s.objects, r.Accounts (s.ingestedOf r.runId) (s.flushedOf r.runId)
  unused : ∀ id, s.runs.lookup id = none → s.ingestedOf id = [] ∧ s.flushedOf id = []

/-- What a call remembers of the heap is true of it. -/
def ScorerPc.Ok (s : Scorer) : ScorerPc → Prop
  | .update event m => s.runs.lookup event.benchmarkRunId = some m
  | .flushUpdate m _ => ∃ id, s.runs.lookup id = some m
  | _ => True

/-- No entry of `runs` is lost or changed. -/
def Scorer.Grows (s t : Scorer) : Prop :=
  ∀ id m, s.runs.lookup id = some m → t.runs.lookup id = some m

theorem ScorerPc.Ok.mono {s t : Scorer} (hgrows : s.Grows t) {pc : ScorerPc} (h : pc.Ok s) :
    pc.Ok t := by
  cases pc with
  | update event m => exact hgrows _ _ h
  | flushUpdate m runIds => exact h.imp fun id hid ↦ hgrows id m hid
  | _ => trivial

theorem Scorer.inv_initial : Scorer.initial.Inv where
  runs id m := by simp [initial]
  accounts r hr := by simp [initial] at hr
  unused id _ := ⟨rfl, rfl⟩

/-- A run gets its object. -/
theorem Scorer.Inv.create {s : Scorer} (hs : s.Inv) {id : String} (hid : s.runs.lookup id = none) :
    Inv { s with
      objects := s.objects ++ [.new id], runs := s.runs.insert id s.objects.length } where
  runs id' m := by
    -- the map has no entry for the run, so no object of it is older
    rcases eq_or_ne id' id with rfl | hne
    · rw [Finmap.lookup_insert, Option.some_inj]
      constructor
      · rintro rfl
        exact ⟨.new id', by simp, rfl⟩
      · rintro ⟨r, hr, hrid⟩
        by_contra hm
        have hold : s.objects[m]? = some r := by grind
        rw [(hs.runs id' m).mpr ⟨r, hold, hrid⟩] at hid
        simp at hid
    · rw [Finmap.lookup_insert_of_ne _ hne, hs.runs]
      constructor
      · rintro ⟨r, hr, hrid⟩
        exact ⟨r, by grind, hrid⟩
      · rintro ⟨r, hr, hrid⟩
        refine ⟨r, ?_, hrid⟩
        have hnew : r ≠ .new id := by
          rintro rfl
          exact hne hrid.symm
        grind
  accounts r hr := by
    rcases List.mem_append.mp hr with hr | hr
    · exact hs.accounts r hr
    · obtain rfl := List.mem_singleton.mp hr
      obtain ⟨hingested, hflushed⟩ := hs.unused id hid
      have := RunMetrics.accounts_new id
      rw [← hingested, ← hflushed] at this
      exact this
  unused id' hid' := by
    have hne : id' ≠ id := by
      rintro rfl
      rw [Finmap.lookup_insert] at hid'
      simp at hid'
    rw [Finmap.lookup_insert_of_ne _ hne] at hid'
    exact hs.unused id' hid'

/-- Two objects of one run are one. -/
theorem Scorer.Inv.unique {s : Scorer} (hs : s.Inv) {r r' : RunMetrics} {m m' : ℕ}
    (hr : s.objects[m]? = some r) (hr' : s.objects[m']? = some r') (hid : r'.runId = r.runId) :
    m' = m := by
  have h := (hs.runs r.runId m).mpr ⟨r, hr, rfl⟩
  have h' := (hs.runs r.runId m').mpr ⟨r', hr', hid⟩
  rw [h, Option.some_inj] at h'
  exact h'.symm

theorem Scorer.Inv.length_le_one {s : Scorer} (hs : s.Inv) (id : String) :
    (s.objects.filter (·.runId = id)).length ≤ 1 := by
  have hnodup : (s.objects.map RunMetrics.runId).Nodup := by
    rw [List.nodup_iff_getElem?_ne_getElem?]
    intro m m' hlt hm' heq
    rw [List.length_map] at hm'
    obtain ⟨r, hr⟩ : ∃ r, s.objects[m]? = some r :=
      ⟨s.objects[m], List.getElem?_eq_getElem (hlt.trans hm')⟩
    obtain ⟨r', hr'⟩ : ∃ r', s.objects[m']? = some r' :=
      ⟨s.objects[m'], List.getElem?_eq_getElem hm'⟩
    rw [List.getElem?_map, List.getElem?_map, hr, hr', Option.map_some, Option.map_some,
      Option.some_inj] at heq
    exact hlt.ne' (hs.unique hr hr' heq.symm)
  have hcount := List.nodup_iff_count_le_one.mp hnodup id
  rw [List.count, List.countP_map, List.countP_eq_length_filter] at hcount
  simpa only [Function.comp_def, beq_eq_decide] using hcount

/-- The object of a run is replaced by one that accounts for what is new. -/
theorem Scorer.Inv.set {s : Scorer} (hs : s.Inv) {r r' : RunMetrics} {m : ℕ}
    (hr : s.objects[m]? = some r) (hid : r'.runId = r.runId) {ingested : List TelemetryEvent}
    {flushed : List (String × ℕ)}
    (hother : ∀ id ≠ r.runId, ingested.filter (·.benchmarkRunId = id) = s.ingestedOf id ∧
      (flushed.filter (·.1 = id)).map Prod.snd = s.flushedOf id)
    (hacc : r'.Accounts (ingested.filter (·.benchmarkRunId = r.runId))
      ((flushed.filter (·.1 = r.runId)).map Prod.snd)) :
    Inv { s with objects := s.objects.set m r', ingested := ingested, flushed := flushed } where
  runs id m' := by
    obtain ⟨hm, -⟩ := List.getElem?_eq_some_iff.mp hr
    -- the run of the object stays, so the map needs no change
    rw [hs.runs]
    rcases eq_or_ne m m' with rfl | hne
    · simp [hr, List.getElem?_set_self hm, hid]
    · simp [List.getElem?_set_ne hne]
  accounts t ht := by
    obtain ⟨m', hm'⟩ := List.mem_iff_getElem?.mp ht
    rcases eq_or_ne m m' with rfl | hne
    · rw [List.getElem?_set_self (List.getElem?_eq_some_iff.mp hr).1, Option.some_inj] at hm'
      subst hm'
      rw [← hid] at hacc
      exact hacc
    · rw [List.getElem?_set_ne hne] at hm'
      -- another object is of another run, to whose history nothing is added
      have hrun : t.runId ≠ r.runId := fun heq ↦ hne (hs.unique hr hm' heq).symm
      have := hs.accounts t (List.mem_of_getElem? hm')
      rw [← (hother _ hrun).1, ← (hother _ hrun).2] at this
      exact this
  unused id hid' := by
    have hne : id ≠ r.runId := by
      rintro rfl
      rw [(hs.runs r.runId m).mpr ⟨r, hr, rfl⟩] at hid'
      simp at hid'
    have := hs.unused id hid'
    rw [← (hother id hne).1, ← (hother id hne).2] at this
    exact this

theorem Scorer.Inv.ingest {s : Scorer} (hs : s.Inv) {event : TelemetryEvent} {r : RunMetrics}
    {m : ℕ} (hr : s.objects[m]? = some r) (hid : r.runId = event.benchmarkRunId) :
    Inv { s with
      objects := s.objects.set m (r.ingest event), ingested := s.ingested ++ [event] } := by
  have hrun : (r.ingest event).runId = r.runId := rfl
  refine hs.set hr hrun (fun id hne ↦ ⟨?_, rfl⟩) ?_
  · rw [hid] at hne
    simp [Scorer.ingestedOf, hne.symm]
  · have := (hs.accounts r (List.mem_of_getElem? hr)).ingest event
    simpa [Scorer.ingestedOf, Scorer.flushedOf, hid] using this

theorem Scorer.Inv.flush {s : Scorer} (hs : s.Inv) {r : RunMetrics} {m : ℕ}
    (hr : s.objects[m]? = some r) :
    Inv { s with
      objects := s.objects.set m r.flushTps
      flushed := s.flushed ++ [(r.runId, r.currentTps)] } := by
  have hrun : r.flushTps.runId = r.runId := rfl
  refine hs.set hr hrun (fun id hne ↦ ⟨rfl, ?_⟩) ?_
  · simp [Scorer.flushedOf, hne.symm]
  · have := (hs.accounts r (List.mem_of_getElem? hr)).flushTps
    simpa [Scorer.ingestedOf, Scorer.flushedOf] using this

/-- **The step lemma.** A critical section keeps the invariant, and what its call remembers stays
true of the heap. -/
theorem Scorer.Inv.advance {s s' : Scorer} {order : List String} {pc pc' : ScorerPc} (hs : s.Inv)
    (hpc : pc.Ok s) (h : s.advance order pc = some (s', pc')) :
    s'.Inv ∧ pc'.Ok s' ∧ s.Grows s' := by
  have hsame : s.Grows s := fun _ _ hm ↦ hm
  cases pc with
  | find event =>
    simp only [Scorer.advance] at h
    split at h
    all_goals obtain ⟨rfl, rfl⟩ := Option.some_inj.mp h
    -- found: the index stays right, as the map only grows
    · exact ⟨hs, ‹_›, hsame⟩
    · exact ⟨hs, trivial, hsame⟩
  | create event =>
    simp only [Scorer.advance] at h
    split at h
    all_goals obtain ⟨rfl, rfl⟩ := Option.some_inj.mp h
    · exact ⟨hs, ‹_›, hsame⟩
    -- the second look is under the unique lock, so the object is the first of its run
    · rename_i hnone
      refine ⟨hs.create hnone, Finmap.lookup_insert _, fun id m hm ↦ ?_⟩
      have hne : id ≠ event.benchmarkRunId := by
        rintro rfl
        simp [hnone] at hm
      rw [Finmap.lookup_insert_of_ne _ hne]
      exact hm
  | update event m =>
    obtain ⟨r, hr, heq⟩ := Option.map_eq_some_iff.mp h
    obtain ⟨rfl, rfl⟩ := heq
    -- the index that the call remembers is still that of its run
    obtain ⟨r', hr', hid⟩ := (hs.runs _ m).mp hpc
    rw [hr, Option.some_inj] at hr'
    subst hr'
    exact ⟨hs.ingest hr hid, trivial, hsame⟩
  | push event =>
    obtain ⟨rfl, rfl⟩ := Option.some_inj.mp h
    exact ⟨⟨hs.runs, hs.accounts, hs.unused⟩, trivial, hsame⟩
  | collect =>
    simp only [Scorer.advance, Option.ite_none_right_eq_some, Option.some_inj] at h
    obtain ⟨-, rfl, rfl⟩ := h
    exact ⟨hs, trivial, hsame⟩
  | flushFind runIds =>
    cases runIds with
    | nil =>
      obtain ⟨rfl, rfl⟩ := Option.some_inj.mp h
      exact ⟨hs, trivial, hsame⟩
    | cons id runIds =>
      simp only [Scorer.advance] at h
      split at h
      all_goals obtain ⟨rfl, rfl⟩ := Option.some_inj.mp h
      · exact ⟨hs, ⟨id, ‹_›⟩, hsame⟩
      · exact ⟨hs, trivial, hsame⟩
  | flushUpdate m runIds =>
    obtain ⟨r, hr, heq⟩ := Option.map_eq_some_iff.mp h
    obtain ⟨rfl, rfl⟩ := heq
    exact ⟨hs.flush hr, trivial, hsame⟩
  | done => simp [Scorer.advance] at h

def Engine.Inv (e : Engine) : Prop := e.shared.Inv ∧ ∀ pc ∈ e.threads, pc.Ok e.shared

theorem Engine.Inv.step {e e' : Engine} {i : PoolEvent ScorerCall (List String)} (he : e.Inv)
    (h : e.step i = some e') : e'.Inv := by
  cases i with
  | start call =>
    obtain rfl := Option.some_inj.mp h
    refine ⟨he.1, Pool.forall_start he.2 ?_⟩
    cases call <;> trivial
  | run i order =>
    obtain ⟨l, pc, r, s', pc', hthreads, -, hadvance, rfl⟩ := Pool.next_run h
    have hall := he.2
    rw [hthreads] at hall
    obtain ⟨hinv, hok, hgrows⟩ := he.1.advance (hall pc (by simp)) hadvance
    exact ⟨hinv, Pool.forall_run hall (fun _ hq ↦ hq.mono hgrows) hok⟩

/-! ## The ledger -/

/-- **The run ledger.** At every moment of every interleaving, a run has at most one object, and
that object accounts for all the updates and windows of the run; a run without an object has had
none. -/
theorem run_ledger {is : List (PoolEvent ScorerCall (List String))} {e : Engine}
    (h : exec Engine.step .initial is = some e) (id : String) :
    (e.shared.objects.filter (·.runId = id)).length ≤ 1 ∧
      (∀ m ∈ e.shared.objects, m.runId = id →
        m.Accounts (e.shared.ingestedOf id) (e.shared.flushedOf id)) ∧
      ((∀ m ∈ e.shared.objects, m.runId ≠ id) →
        e.shared.ingestedOf id = [] ∧ e.shared.flushedOf id = []) := by
  have hinv : e.Inv := exec_invariant (fun _ _ _ he ↦ he.step)
    ⟨Scorer.inv_initial, by simp [Engine.initial]⟩ h
  refine ⟨hinv.1.length_le_one id, ?_, ?_⟩
  · rintro m hm rfl
    exact hinv.1.accounts m hm
  · intro hnone
    apply hinv.1.unused
    rw [Option.eq_none_iff_forall_ne_some]
    intro m hm
    obtain ⟨r, hr, hid⟩ := (hinv.1.runs id m).mp hm
    exact hnone r (List.mem_of_getElem? hr) hid

/-- Two threads bring in the first events of a run at the same time, and one window is closed. -/
theorem run_ledger_race :
    ∃ e, exec Engine.step .initial
        [.start (.ingest ⟨"r", "b", "", "limit", "S", 0, 5, 5, true, ""⟩),
          .start (.ingest ⟨"r", "c", "", "limit", "S", 0, 0, 0, false, ""⟩),
          .run 0 [], .run 1 [], .run 1 [], .run 0 [], .run 0 [], .start .flushTps, .run 2 ["r"],
          .run 2 [], .run 2 [], .run 1 []] = some e ∧
      (e.shared.objects.filter (·.runId = "r")).length ≤ 1 ∧
      (∀ m ∈ e.shared.objects, m.runId = "r" →
        m.Accounts (e.shared.ingestedOf "r") (e.shared.flushedOf "r")) ∧
      ((∀ m ∈ e.shared.objects, m.runId ≠ "r") →
        e.shared.ingestedOf "r" = [] ∧ e.shared.flushedOf "r" = []) := by
  obtain ⟨e, he⟩ := Option.isSome_iff_exists.mp (show (exec Engine.step .initial
    [.start (.ingest ⟨"r", "b", "", "limit", "S", 0, 5, 5, true, ""⟩),
      .start (.ingest ⟨"r", "c", "", "limit", "S", 0, 0, 0, false, ""⟩),
      .run 0 [], .run 1 [], .run 1 [], .run 0 [], .run 0 [], .start .flushTps, .run 2 ["r"],
      .run 2 [], .run 2 [], .run 1 []]).isSome = true by decide +kernel)
  exact ⟨e, he, run_ledger he "r"⟩

end BenchmarkPlatform.Scoring
