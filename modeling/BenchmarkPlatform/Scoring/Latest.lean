import BenchmarkPlatform.Leaderboard.Details
import BenchmarkPlatform.Scoring.Results

/-!
# The latest score is the one shown

`FinalizeRun` holds the lock of the metrics from the moment it computes a score until all of it is
in Redis. So the scores of one run are written in the order in which they are computed, and whenever
no finalization of a team is under way, Redis has the latest score of the team, and the details of
that same score. This is a matter of the lock: it holds for a team whose finalizations are all of
one run, as they are on this platform, where the run of a submission has the id of the submission.
-/

namespace BenchmarkPlatform.Scoring

open Lib Leaderboard

variable {lib : Libraries} {log : List Section} {teamId runId : String}

/-! ## The locks -/

/-- The metrics whose lock the thread holds. -/
def BackendPc.holds : BackendPc → Option ℕ
  | .zadd m _ _ => some m
  | .hmset m _ _ => some m
  | .publish m _ => some m
  | _ => none

/-- Each lock that is taken is held by one thread. -/
structure Service.Locking (s : Service) : Prop where
  held : (s.threads.filterMap BackendPc.holds).Perm s.shared.locked
  nodup : s.shared.locked.Nodup

/-- What a step does to the locks. -/
theorem Backend.locked_advance {s s' : Backend} {env : BackendEnv} {pc pc' : BackendPc}
    (h : s.advance lib env pc = some (s', pc')) :
    (s'.locked = s.locked ∧ pc'.holds = pc.holds) ∨
    (∃ m, m ∉ s.locked ∧ s'.locked = m :: s.locked ∧ pc.holds = none ∧ pc'.holds = some m) ∨
    ∃ m, s'.locked = s.locked.erase m ∧ pc.holds = some m ∧ pc'.holds = none := by
  cases pc with
  | scorer pc =>
    rw [Backend.advance] at h
    split_ifs at h
    obtain ⟨⟨t, pc''⟩, -, heq⟩ := Option.map_eq_some_iff.mp h
    obtain ⟨rfl, rfl⟩ := Prod.mk.inj heq
    exact Or.inl ⟨rfl, rfl⟩
  | find q runId =>
    rw [Backend.advance] at h
    split at h
    all_goals
      obtain ⟨rfl, rfl⟩ := Prod.mk.inj (Option.some_inj.mp h)
      exact Or.inl ⟨rfl, rfl⟩
  | read q runId m =>
    rw [Backend.advance] at h
    split_ifs at h with hfree
    obtain ⟨r, hr, heq⟩ := Option.map_eq_some_iff.mp h
    cases q with
    | finalizeRun teamId =>
      rw [Backend.read] at heq
      split_ifs at heq
      · obtain ⟨rfl, rfl⟩ := Prod.mk.inj heq
        exact Or.inl ⟨rfl, rfl⟩
      · obtain ⟨rfl, rfl⟩ := Prod.mk.inj heq
        exact Or.inr (Or.inl ⟨m, hfree, rfl, rfl, rfl⟩)
    | getSnapshot | getHistogram =>
      obtain ⟨rfl, rfl⟩ := Prod.mk.inj heq
      exact Or.inl ⟨rfl, rfl⟩
  | zadd m score hashVals | hmset m teamId hashVals =>
    rw [Backend.advance] at h
    split_ifs at h
    · obtain ⟨rfl, rfl⟩ := Prod.mk.inj (Option.some_inj.mp h)
      exact Or.inr (Or.inr ⟨m, rfl, rfl, rfl⟩)
    · obtain ⟨rfl, rfl⟩ := Prod.mk.inj (Option.some_inj.mp h)
      exact Or.inl ⟨rfl, rfl⟩
  | publish m teamId =>
    rw [Backend.advance] at h
    split_ifs at h
    all_goals
      obtain ⟨rfl, rfl⟩ := Prod.mk.inj (Option.some_inj.mp h)
      exact Or.inr (Or.inr ⟨m, rfl, rfl, rfl⟩)
  | zrem name | del name | refresh =>
    rw [Backend.advance] at h
    split_ifs at h
    all_goals
      obtain ⟨rfl, rfl⟩ := Prod.mk.inj (Option.some_inj.mp h)
      exact Or.inl ⟨rfl, rfl⟩
  | fetch f =>
    rw [Backend.advance] at h
    split_ifs at h
    · obtain ⟨rfl, rfl⟩ := Prod.mk.inj (Option.some_inj.mp h)
      exact Or.inl ⟨rfl, rfl⟩
    · split at h
      all_goals
        obtain ⟨rfl, rfl⟩ := Prod.mk.inj (Option.some_inj.mp h)
        exact Or.inl ⟨rfl, rfl⟩
  | fetched entries | done => simp [Backend.advance] at h

theorem Service.Locking.next {s t : Service} {e : ServiceEvent} (h : s.Locking)
    (hstep : s.step lib e = some t) : t.Locking := by
  cases e with
  | start call =>
    obtain rfl := Option.some_inj.mp hstep
    have hentry : call.entry.holds = none := by
      cases call <;> rfl
    refine ⟨?_, h.nodup⟩
    rw [List.filterMap_append, List.filterMap_cons_none hentry, List.filterMap_nil,
      List.append_nil]
    exact h.held
  | run i env =>
    obtain ⟨l, pc, r, s', pc', hthreads, -, hadvance, rfl⟩ := Pool.next_run hstep
    have hheld := h.held
    rw [hthreads, List.filterMap_append] at hheld
    rcases Backend.locked_advance hadvance with ⟨hlocked, hsame⟩ |
        ⟨m, hfree, hlocked, hnone, hsome⟩ | ⟨m, hlocked, hsome, hnone⟩
    · refine ⟨?_, by rw [hlocked]; exact h.nodup⟩
      rw [List.filterMap_append, hlocked, List.filterMap_cons, hsame, ← List.filterMap_cons]
      exact hheld
    · refine ⟨?_, by rw [hlocked]; exact List.nodup_cons.mpr ⟨hfree, h.nodup⟩⟩
      rw [List.filterMap_cons_none hnone] at hheld
      rw [List.filterMap_append, List.filterMap_cons_some hsome, hlocked]
      exact List.perm_middle.trans (hheld.cons m)
    · refine ⟨?_, by rw [hlocked]; exact h.nodup.erase m⟩
      rw [List.filterMap_cons_some hsome] at hheld
      rw [List.filterMap_append, List.filterMap_cons_none hnone, hlocked]
      have herase := (List.perm_middle.symm.trans hheld).erase m
      rw [List.erase_cons_head] at herase
      exact herase

/-- Two threads do not hold one lock. -/
theorem Service.Locking.exclusive {s : Service} (h : s.Locking) {l r : List BackendPc}
    {pc : BackendPc} {m : ℕ} (hthreads : s.threads = l ++ pc :: r) (hpc : pc.holds = some m) :
    ∀ q ∈ l ++ r, q.holds ≠ some m := by
  intro q hq hholds
  have hnodup := h.held.nodup_iff.mpr h.nodup
  rw [hthreads, List.filterMap_append, List.filterMap_cons_some hpc] at hnodup
  have hfree := (List.nodup_middle.mp hnodup).notMem
  rw [← List.filterMap_append] at hfree
  exact hfree (List.mem_filterMap.mpr ⟨q, hq, hholds⟩)

/-- A lock that is free is held by no thread. -/
theorem Service.Locking.free {s : Service} (h : s.Locking) {m : ℕ} (hm : m ∉ s.shared.locked) :
    ∀ q ∈ s.threads, q.holds ≠ some m := by
  intro q hq hholds
  exact hm (h.held.mem_iff.mp (List.mem_filterMap.mpr ⟨q, hq, hholds⟩))

/-! ## One team -/

/-- The score that `FinalizeRun` has computed for the team. -/
def Section.scoreOf (teamId : String) : Section → Option FinalScore
  | .answered _ (.finalizeRun t) (some (.score score)) => if t = teamId then some score else none
  | _ => none

def latestScore (teamId : String) (log : List Section) : Option FinalScore :=
  (log.filterMap (Section.scoreOf teamId)).getLast?

theorem latestScore_append {new : List Section} (h : ∀ e ∈ new, e.scoreOf teamId = none) :
    latestScore teamId (log ++ new) = latestScore teamId log := by
  rw [latestScore, List.filterMap_append, List.filterMap_eq_nil_iff.mpr h, List.append_nil,
    latestScore]

theorem latestScore_concat {e : Section} {score : FinalScore}
    (h : e.scoreOf teamId = some score) :
    latestScore teamId (log ++ [e]) = some score := by
  rw [latestScore, List.filterMap_append, List.filterMap_cons_some h, List.filterMap_nil,
    List.getLast?_concat]

/-- The thread is writing a score of the team. -/
def BackendPc.Writes (teamId : String) : BackendPc → Prop
  | .zadd _ score _ => score.teamId = teamId
  | .hmset _ t _ => t = teamId
  | .publish _ t => t = teamId
  | _ => False

instance (teamId : String) : DecidablePred (BackendPc.Writes teamId)
  | .zadd _ score _ => inferInstanceAs (Decidable (score.teamId = teamId))
  | .hmset _ t _ | .publish _ t => inferInstanceAs (Decidable (t = teamId))
  | .scorer _ | .find _ _ | .read _ _ _ | .zrem _ | .del _ | .refresh | .fetch _ | .fetched _
  | .done => isFalse not_false

/-- The sorted set has the score. -/
def Stored (teamId : String) (score : FinalScore) (store : Store) : Prop :=
  (teamId, score.compositeScore) ∈ store.leaderboard.entries

/-- The hash has the fields of the score. -/
def Detailed (lib : Libraries) (teamId runId : String) (score : FinalScore) (store : Store) :
    Prop :=
  ∃ m : RunMetrics, score = m.finalScore runId teamId ∧
    store.scores teamId = fun key ↦ (m.hashVals lib score).lookup key

/-- The latest score of the team is in Redis. -/
def Settled (lib : Libraries) (teamId runId : String) (log : List Section) (store : Store) : Prop :=
  ∀ score, latestScore teamId log = some score →
    Stored teamId score store ∧ Detailed lib teamId runId score store

/-- What a thread that writes a score of the team writes is the latest score, of the run, and it has
got as far as its place says. Other threads do not touch the team. -/
def BackendPc.Current (lib : Libraries) (teamId runId : String) (log : List Section) (s : Backend) :
    BackendPc → Prop
  | .find (.finalizeRun t) r => t = teamId → r = runId
  | .read (.finalizeRun t) r _ => t = teamId → r = runId
  | .zadd m score hashVals => score.teamId = teamId → s.scorer.runs.lookup runId = some m ∧
    latestScore teamId log = some score ∧
    ∃ r : RunMetrics, score = r.finalScore runId teamId ∧ hashVals = r.hashVals lib score
  | .hmset m t hashVals => t = teamId → s.scorer.runs.lookup runId = some m ∧
    ∃ (r : RunMetrics) (score : FinalScore), latestScore teamId log = some score ∧
      score = r.finalScore runId teamId ∧ hashVals = r.hashVals lib score ∧
      Stored teamId score s.store
  | .publish m t => t = teamId → s.scorer.runs.lookup runId = some m ∧
    Settled lib teamId runId log s.store
  | .zrem t => t ≠ teamId
  | .del t => t ≠ teamId
  | _ => True

/-- Nothing has changed for the team. -/
structure Keeps (teamId : String) (log log' : List Section) (s s' : Backend) : Prop where
  latest : latestScore teamId log' = latestScore teamId log
  entries : ∀ score, (teamId, score) ∈ s.store.leaderboard.entries →
    (teamId, score) ∈ s'.store.leaderboard.entries
  details : s'.store.scores teamId = s.store.scores teamId
  grows : s.scorer.Grows s'.scorer

section

variable {log' : List Section} {s s' : Backend} {pc : BackendPc}

theorem Keeps.settled (h : Keeps teamId log log' s s')
    (hs : Settled lib teamId runId log s.store) : Settled lib teamId runId log' s'.store := by
  intro score hlatest
  rw [h.latest] at hlatest
  obtain ⟨hstored, m, hscore, hdetails⟩ := hs score hlatest
  refine ⟨h.entries _ hstored, m, hscore, ?_⟩
  rw [h.details]
  exact hdetails

theorem Keeps.current (h : Keeps teamId log log' s s') (hpc : pc.Current lib teamId runId log s) :
    pc.Current lib teamId runId log' s' := by
  cases pc with
  | zadd m score hashVals =>
    intro hteam
    obtain ⟨hrun, hlatest, hscore⟩ := hpc hteam
    exact ⟨h.grows _ _ hrun, h.latest.trans hlatest, hscore⟩
  | hmset m t hashVals =>
    intro hteam
    obtain ⟨hrun, r, score, hlatest, hscore, hvals, hstored⟩ := hpc hteam
    exact ⟨h.grows _ _ hrun, r, score, h.latest.trans hlatest, hscore, hvals,
      h.entries _ hstored⟩
  | publish m t =>
    intro hteam
    obtain ⟨hrun, hsettled⟩ := hpc hteam
    exact ⟨h.grows _ _ hrun, h.settled hsettled⟩
  | find q r => cases q <;> exact hpc
  | read q r m => cases q <;> exact hpc
  | zrem t | del t => exact hpc
  | _ => trivial

/-- A thread that is not writing the team relies on nothing. -/
theorem BackendPc.Current.of_not_writes (hpc : pc.Current lib teamId runId log s)
    (h : ¬pc.Writes teamId) : pc.Current lib teamId runId log' s' := by
  cases pc with
  | zadd m score hashVals => exact fun hteam ↦ absurd hteam h
  | hmset m t hashVals => exact fun hteam ↦ absurd hteam h
  | publish m t => exact fun hteam ↦ absurd hteam h
  | find q r => cases q <;> exact hpc
  | read q r m => cases q <;> exact hpc
  | zrem t | del t => exact hpc
  | _ => trivial

/-- A thread that is writing the team holds the lock of the run. -/
theorem BackendPc.Current.holds (hpc : pc.Current lib teamId runId log s)
    (h : pc.Writes teamId) : ∃ m, s.scorer.runs.lookup runId = some m ∧ pc.holds = some m := by
  cases pc with
  | zadd m score hashVals => exact ⟨m, (hpc h).1, rfl⟩
  | hmset m t hashVals => exact ⟨m, (hpc h).1, rfl⟩
  | publish m t => exact ⟨m, (hpc h).1, rfl⟩
  | _ => exact h.elim

theorem mem_zadd_self (z : SortedSet) (t : String) (score : ℚ) :
    (t, score) ∈ (z.zadd t score).entries :=
  (List.mem_orderedInsert Outranks).mpr (Or.inl rfl)

theorem mem_zrem_of_ne {z : SortedSet} {t : String} {e : String × ℚ} (h : e ∈ z.entries)
    (hne : e.1 ≠ t) : e ∈ (z.zrem t).entries :=
  List.mem_filter.mpr ⟨h, by simpa using hne⟩

theorem mem_zadd_of_ne {z : SortedSet} {t : String} {score : ℚ} {e : String × ℚ}
    (h : e ∈ z.entries) (hne : e.1 ≠ t) : e ∈ (z.zadd t score).entries :=
  (List.mem_orderedInsert Outranks).mpr (Or.inr (mem_zrem_of_ne h hne))

/-- **One step.** Either nothing changes for the team, or the thread holds the lock of the run, or
takes it; and when it has released it, the latest score is in Redis. -/
theorem Backend.current_advance {env : BackendEnv} {pc' : BackendPc} (hne : teamId ≠ "")
    (hok : pc.Ok s.scorer) (hstore : RealStore lib log s.store)
    (hcurrent : pc.Current lib teamId runId log s)
    (hredis : env.redisError = true → ¬pc.Writes teamId) (hgrows : s.scorer.Grows s'.scorer)
    (h : s.advance lib env pc = some (s', pc')) :
    pc'.Current lib teamId runId (log ++ s.sections lib pc) s' ∧
    (Keeps teamId log (log ++ s.sections lib pc) s s' ∧
        ¬pc.Writes teamId ∧ ¬pc'.Writes teamId ∨
      (pc.Writes teamId ∨ ∃ m, m ∉ s.locked ∧ s.scorer.runs.lookup runId = some m) ∧
        (pc'.Writes teamId ∨
          Settled lib teamId runId (log ++ s.sections lib pc) s'.store)) := by
  -- a step that does not touch the team
  have hkeep : (∀ e ∈ s.sections lib pc, e.scoreOf teamId = none) → s'.store = s.store →
      Keeps teamId log (log ++ s.sections lib pc) s s' := by
    intro hnone hsame
    refine ⟨latestScore_append hnone, ?_, ?_, hgrows⟩
    · rw [hsame]
      exact fun score hmem ↦ hmem
    · rw [hsame]
  have hnil : s.sections lib pc = [] → ∀ e ∈ s.sections lib pc, e.scoreOf teamId = none := by
    intro heq e he
    rw [heq] at he
    exact absurd he List.not_mem_nil
  cases pc with
  | scorer pc =>
    rw [Backend.advance] at h
    split_ifs at h
    obtain ⟨⟨t, pc''⟩, -, heq⟩ := Option.map_eq_some_iff.mp h
    obtain ⟨rfl, rfl⟩ := Prod.mk.inj heq
    refine ⟨trivial, Or.inl ⟨hkeep (fun e he ↦ ?_) rfl, not_false, not_false⟩⟩
    cases pc with
    | update event m =>
      rw [List.mem_singleton.mp he]
      rfl
    | flushUpdate m runIds =>
      rw [Backend.sections] at he
      cases hr : s.scorer.objects[m]? with
      | none =>
        rw [hr] at he
        exact absurd he List.not_mem_nil
      | some r =>
        rw [hr] at he
        rw [List.mem_singleton.mp he]
        rfl
    | _ => exact absurd he List.not_mem_nil
  | find q r =>
    rw [Backend.advance] at h
    have hnone : ∀ e ∈ s.sections lib (.find q r), e.scoreOf teamId = none := by
      intro e he
      rw [Backend.sections] at he
      split_ifs at he
      · rw [List.mem_singleton.mp he]
        cases q <;> rfl
      · exact absurd he List.not_mem_nil
    split at h
    · obtain ⟨rfl, rfl⟩ := Prod.mk.inj (Option.some_inj.mp h)
      exact ⟨trivial, Or.inl ⟨hkeep hnone rfl, not_false, not_false⟩⟩
    · obtain ⟨rfl, rfl⟩ := Prod.mk.inj (Option.some_inj.mp h)
      refine ⟨?_, Or.inl ⟨hkeep hnone rfl, not_false, not_false⟩⟩
      cases q <;> exact hcurrent
  | read q r m =>
    rw [Backend.advance] at h
    split_ifs at h with hfree
    obtain ⟨metrics, hmetrics, heq⟩ := Option.map_eq_some_iff.mp h
    have hsections : s.sections lib (.read q r m)
        = [.answered r q (some (q.answer lib r metrics))] := by
      rw [Backend.sections, hmetrics, Option.elim_some]
    rw [hsections] at hkeep ⊢
    cases q with
    | finalizeRun t =>
      rw [Backend.read] at heq
      split_ifs at heq with hempty
      · -- nothing is written for the empty name
        obtain ⟨rfl, rfl⟩ := Prod.mk.inj heq
        refine ⟨trivial, Or.inl ⟨hkeep (fun e he ↦ ?_) rfl, not_false, not_false⟩⟩
        rw [List.mem_singleton.mp he]
        exact if_neg fun heq ↦ hne (heq.symm.trans hempty)
      · obtain ⟨rfl, rfl⟩ := Prod.mk.inj heq
        by_cases hteam : t = teamId
        · subst hteam
          obtain rfl : r = runId := hcurrent rfl
          refine ⟨fun _ ↦ ⟨hok, latestScore_concat (if_pos rfl), metrics, rfl, rfl⟩, Or.inr
            ⟨Or.inr ⟨m, hfree, hok⟩, Or.inl rfl⟩⟩
        · refine ⟨fun h ↦ absurd h hteam, Or.inl ⟨hkeep (fun e he ↦ ?_) rfl, not_false, hteam⟩⟩
          rw [List.mem_singleton.mp he]
          exact if_neg hteam
    | getSnapshot | getHistogram =>
      obtain ⟨rfl, rfl⟩ := Prod.mk.inj heq
      refine ⟨trivial, Or.inl ⟨hkeep (fun e he ↦ ?_) rfl, not_false, not_false⟩⟩
      rw [List.mem_singleton.mp he]
      rfl
  | zadd m score hashVals =>
    have hlog : log ++ s.sections lib (.zadd m score hashVals) = log := List.append_nil log
    rw [hlog] at hkeep ⊢
    rw [Backend.advance] at h
    by_cases hteam : score.teamId = teamId
    · rw [if_neg fun herror ↦ hredis herror hteam] at h
      obtain ⟨rfl, rfl⟩ := Prod.mk.inj (Option.some_inj.mp h)
      obtain ⟨hrun, hlatest, r, hscore, hvals⟩ := hcurrent hteam
      refine ⟨fun _ ↦ ⟨hrun, r, score, hlatest, hscore, hvals, ?_⟩,
        Or.inr ⟨Or.inl hteam, Or.inl hteam⟩⟩
      rw [Stored, ← hteam]
      exact mem_zadd_self _ _ _
    · split_ifs at h
      · obtain ⟨rfl, rfl⟩ := Prod.mk.inj (Option.some_inj.mp h)
        exact ⟨trivial, Or.inl ⟨hkeep (hnil rfl) rfl, hteam, not_false⟩⟩
      · obtain ⟨rfl, rfl⟩ := Prod.mk.inj (Option.some_inj.mp h)
        refine ⟨fun h ↦ absurd h hteam, Or.inl ⟨⟨rfl, ?_, rfl, hgrows⟩, hteam, hteam⟩⟩
        exact fun score' hmem ↦ mem_zadd_of_ne hmem fun h ↦ hteam h.symm
  | hmset m t hashVals =>
    have hlog : log ++ s.sections lib (.hmset m t hashVals) = log := List.append_nil log
    rw [hlog] at hkeep ⊢
    rw [Backend.advance] at h
    by_cases hteam : t = teamId
    · rw [if_neg fun herror ↦ hredis herror hteam] at h
      obtain ⟨rfl, rfl⟩ := Prod.mk.inj (Option.some_inj.mp h)
      obtain ⟨hrun, r, score, hlatest, hscore, hvals, hstored⟩ := hcurrent hteam
      refine ⟨fun _ ↦ ⟨hrun, fun score' hlatest' ↦ ?_⟩, Or.inr ⟨Or.inl hteam, Or.inl hteam⟩⟩
      obtain rfl := Option.some_inj.mp (hlatest.symm.trans hlatest')
      refine ⟨hstored, r, hscore, ?_⟩
      rw [Store.run, hvals]
      dsimp only
      subst hteam
      rw [Function.update_self]
      -- the fields replace those of an earlier score
      funext key
      rcases hstore.details t with hold | ⟨m', score', -, hold⟩
      · rw [hold, Option.or_none]
      · rw [hold, lookup_hashVals_or]
    · split_ifs at h
      · obtain ⟨rfl, rfl⟩ := Prod.mk.inj (Option.some_inj.mp h)
        exact ⟨trivial, Or.inl ⟨hkeep (hnil rfl) rfl, hteam, not_false⟩⟩
      · obtain ⟨rfl, rfl⟩ := Prod.mk.inj (Option.some_inj.mp h)
        refine ⟨fun h ↦ absurd h hteam, Or.inl ⟨⟨rfl, fun _ hmem ↦ hmem, ?_, hgrows⟩, hteam, hteam⟩⟩
        exact Function.update_of_ne (Ne.symm hteam) _ _
  | publish m t =>
    have hlog : log ++ s.sections lib (.publish m t) = log := List.append_nil log
    rw [hlog] at hkeep ⊢
    rw [Backend.advance] at h
    by_cases hteam : t = teamId
    · rw [if_neg fun herror ↦ hredis herror hteam] at h
      obtain ⟨rfl, rfl⟩ := Prod.mk.inj (Option.some_inj.mp h)
      exact ⟨trivial, Or.inr ⟨Or.inl hteam, Or.inr (hcurrent hteam).2⟩⟩
    · split_ifs at h
      all_goals
        obtain ⟨rfl, rfl⟩ := Prod.mk.inj (Option.some_inj.mp h)
        exact ⟨trivial, Or.inl ⟨hkeep (hnil rfl) rfl, hteam, not_false⟩⟩
  | zrem t =>
    have hlog : log ++ s.sections lib (.zrem t) = log := List.append_nil log
    rw [hlog] at hkeep ⊢
    rw [Backend.advance] at h
    split_ifs at h
    · obtain ⟨rfl, rfl⟩ := Prod.mk.inj (Option.some_inj.mp h)
      exact ⟨trivial, Or.inl ⟨hkeep (hnil rfl) rfl, not_false, not_false⟩⟩
    · obtain ⟨rfl, rfl⟩ := Prod.mk.inj (Option.some_inj.mp h)
      refine ⟨hcurrent, Or.inl ⟨⟨rfl, fun score hmem ↦ ?_, rfl, hgrows⟩, not_false, not_false⟩⟩
      exact mem_zrem_of_ne hmem fun h ↦ hcurrent h.symm
  | del t =>
    have hlog : log ++ s.sections lib (.del t) = log := List.append_nil log
    rw [hlog] at hkeep ⊢
    rw [Backend.advance] at h
    split_ifs at h
    · obtain ⟨rfl, rfl⟩ := Prod.mk.inj (Option.some_inj.mp h)
      exact ⟨trivial, Or.inl ⟨hkeep (hnil rfl) rfl, not_false, not_false⟩⟩
    · obtain ⟨rfl, rfl⟩ := Prod.mk.inj (Option.some_inj.mp h)
      refine ⟨trivial, Or.inl ⟨⟨rfl, fun _ hmem ↦ hmem, ?_, hgrows⟩, not_false, not_false⟩⟩
      exact Function.update_of_ne (Ne.symm hcurrent) _ _
  | refresh =>
    rw [Backend.advance] at h
    split_ifs at h
    all_goals
      obtain ⟨rfl, rfl⟩ := Prod.mk.inj (Option.some_inj.mp h)
      exact ⟨trivial, Or.inl ⟨hkeep (hnil rfl) rfl, not_false, not_false⟩⟩
  | fetch f =>
    rw [Backend.advance] at h
    split_ifs at h
    · obtain ⟨rfl, rfl⟩ := Prod.mk.inj (Option.some_inj.mp h)
      exact ⟨trivial, Or.inl ⟨hkeep (hnil rfl) rfl, not_false, not_false⟩⟩
    · split at h
      all_goals
        obtain ⟨rfl, rfl⟩ := Prod.mk.inj (Option.some_inj.mp h)
        exact ⟨trivial, Or.inl ⟨hkeep (hnil rfl) rfl, not_false, not_false⟩⟩
  | fetched entries | done => simp [Backend.advance] at h

end

/-! ## Runs -/

/-- All finalizations of the team are of the run, the team is not deleted, and Redis takes what is
written for it. -/
def Service.Undisturbed (teamId runId : String) (s : Service) : ServiceEvent → Prop
  | .start (.query (.finalizeRun t) r) => t = teamId → r = runId
  | .start (.deleteTeam t) => t ≠ teamId
  | .start _ => True
  | .run i env => env.redisError = true → ∀ pc ∈ s.threads[i]?, ¬pc.Writes teamId

/-- The invariant, for a team and its run. -/
structure Service.Current (lib : Libraries) (teamId runId : String) (log : List Section)
    (s : Service) : Prop where
  real : s.Real lib log
  locking : s.Locking
  current : ∀ pc ∈ s.threads, pc.Current lib teamId runId log s.shared
  settled : (∀ pc ∈ s.threads, ¬pc.Writes teamId) →
    Settled lib teamId runId log s.shared.store

theorem Service.Current.next {s t : Service} {e : ServiceEvent} (hne : teamId ≠ "")
    (h : s.Current lib teamId runId log) (hguard : s.Undisturbed teamId runId e)
    (hstep : s.step lib e = some t) :
    t.Current lib teamId runId (log ++ s.sections lib e) := by
  have hreal := h.real.next hstep
  have hlocking := h.locking.next hstep
  cases e with
  | start call =>
    obtain rfl := Option.some_inj.mp hstep
    rw [Service.sections, List.append_nil] at hreal ⊢
    refine ⟨hreal, hlocking, Pool.forall_start h.current ?_, fun hidle ↦ h.settled fun pc hpc ↦
      hidle pc (List.mem_append_left _ hpc)⟩
    cases call with
    | query q r => cases q <;> exact hguard
    | deleteTeam name => exact hguard
    | _ => trivial
  | run i env =>
    obtain ⟨l, pc, r, s', pc', hthreads, hi, hadvance, rfl⟩ := Pool.next_run hstep
    have hsections : s.sections lib (.run i env) = s.shared.sections lib pc := by
      rw [Service.sections, hthreads, ← hi]
      simp
    have hredis : env.redisError = true → ¬pc.Writes teamId := by
      intro herror
      refine hguard herror pc ?_
      rw [hthreads, ← hi]
      simp
    have hcurrent := h.current
    have hok := h.real.inv.threads
    rw [hthreads] at hcurrent hok
    have hpc := hcurrent pc (by simp)
    obtain ⟨-, -, hgrows, -⟩ := h.real.inv.backend.advance (hok pc (by simp)) hadvance
    obtain ⟨hpc', hcases⟩ := Backend.current_advance hne (hok pc (by simp)) h.real.store hpc hredis
      hgrows hadvance
    rw [hsections] at hreal ⊢
    rcases hcases with ⟨hkeeps, hquiet, -⟩ | ⟨hlock, hend⟩
    · refine ⟨hreal, hlocking, Pool.forall_run hcurrent (fun q hq ↦ hkeeps.current hq) hpc', ?_⟩
      intro hidle
      refine hkeeps.settled (h.settled ?_)
      rw [hthreads]
      exact Pool.forall_run hidle (fun q hq ↦ hq) hquiet
    · -- the lock keeps the other threads away from the team
      have hothers : ∀ q ∈ l ++ r, ¬q.Writes teamId := by
        intro q hq hwrites
        have hmem : q ∈ l ++ pc :: r := by
          rcases List.mem_append.mp hq with hq | hq
          · exact List.mem_append_left _ hq
          · exact List.mem_append_right _ (List.mem_cons_of_mem _ hq)
        obtain ⟨m, hm, hholds⟩ := (hcurrent q hmem).holds hwrites
        rcases hlock with hwrites' | ⟨m', hfree, hm'⟩
        · obtain ⟨m', hm', hholds'⟩ := hpc.holds hwrites'
          obtain rfl := Option.some_inj.mp (hm.symm.trans hm')
          exact h.locking.exclusive hthreads hholds' q hq hholds
        · obtain rfl := Option.some_inj.mp (hm.symm.trans hm')
          exact h.locking.free hfree q (hthreads ▸ hmem) hholds
      have hold : ∀ q ∈ l ++ r,
          q.Current lib teamId runId (log ++ s.shared.sections lib pc) s' := by
        intro q hq
        refine BackendPc.Current.of_not_writes (hcurrent q ?_) (hothers q hq)
        rcases List.mem_append.mp hq with hq | hq
        · exact List.mem_append_left _ hq
        · exact List.mem_append_right _ (List.mem_cons_of_mem _ hq)
      refine ⟨hreal, hlocking, fun q hq ↦ ?_, fun hidle ↦ ?_⟩
      · rcases List.mem_append.mp hq with hq | hq
        · exact hold q (List.mem_append_left _ hq)
        · rcases List.mem_cons.mp hq with rfl | hq
          · exact hpc'
          · exact hold q (List.mem_append_right _ hq)
      · rcases hend with hwrites | hsettled
        · exact absurd hwrites (hidle pc' (by simp))
        · exact hsettled

theorem Service.current_initial : Service.initial.Current lib teamId runId [] where
  real := Service.real_initial
  locking := ⟨List.Perm.nil, List.nodup_nil⟩
  current _ hpc := absurd hpc List.not_mem_nil
  settled _ score hlatest := by simp [latestScore] at hlatest

/-- The update has the figures of the score. -/
structure ShowsScore (update : DetailUpdate) (m : RunMetrics) (score : FinalScore) : Prop where
  latencyP50Us : update.latencyP50Us = score.latencyP50Us
  latencyP90Us : update.latencyP90Us = score.latencyP90Us
  latencyP99Us : update.latencyP99Us = score.latencyP99Us
  currentTps : m.tpsWindow.getLastD 0 < 2 ^ 63 → update.currentTps = m.tpsWindow.getLastD 0

theorem getI_of_lookup {details : List (String × String)} {key : String} {n : ℤ}
    (h : details.lookup key = some (toString n)) (hnonneg : 0 ≤ n) (hlt : n < 2 ^ 63) :
    getI details key = n := by
  obtain ⟨k, rfl⟩ := Int.eq_ofNat_of_zero_le hnonneg
  have hsame : toString ((k : ℕ) : ℤ) = toString k := rfl
  rw [getI, h, Option.bind_some, hsame, stoll_toString (by omega), Option.getD_some]

/-- What the leaderboard service makes of a hash that the scorer has written. -/
theorem showsScore_make {details : List (String × String)} {m : RunMetrics} {score : FinalScore}
    (hdetails : ∀ key, details.lookup key = (m.hashVals lib score).lookup key)
    {run : String} {past : List Section}
    (hscore : score = (metricsAfter run past).finalScore run teamId)
    (parse : String → Option Json) (subId : String) :
    ShowsScore (.make parse subId details) m score := by
  have hsound := sound_metricsAfter run past
  have hlatency : ∀ key p, 0 < p → p ≤ 100 →
      details.lookup key = some (toString ((metricsAfter run past).latencyUs p)) →
      getI details key = (metricsAfter run past).latencyUs p := fun key p hp hle hlookup ↦
    getI_of_lookup hlookup (hsound.latencyUs_nonneg hp hle)
      ((hsound.latencyUs_lt hp hle).trans (by decide))
  subst hscore
  refine ⟨hlatency "latency_p50" 50 (by norm_num) (by norm_num) (hdetails _),
    hlatency "latency_p90" 90 (by norm_num) (by norm_num) (hdetails _),
    hlatency "latency_p99" 99 (by norm_num) (by norm_num) (hdetails _), fun hlt ↦ ?_⟩
  have hlookup : details.lookup "current_tps"
      = some (toString ((m.tpsWindow.getLastD 0 : ℕ) : ℤ)) := hdetails "current_tps"
  exact getI_of_lookup hlookup (Int.natCast_nonneg _) (by exact_mod_cast hlt)

/-- **The latest score is the one shown.** Let all finalizations of a team be of one run, let the
team not be deleted, and let Redis take what is written for it. However everything interleaves,
whenever no score of the team is being written, the leaderboard has the score that was computed last
for the team, and its hash has the fields of that same score; and the update that the leaderboard
service makes of the hash, for the subscribers of the team, has the figures of that score. -/
theorem latest_score_shown (hne : teamId ≠ "") {es : List ServiceEvent} {s : Service}
    (hguard : Guarded (Service.step lib) (Service.Undisturbed teamId runId) .initial es)
    (h : exec (Service.step lib) .initial es = some s)
    (hidle : ∀ pc ∈ s.threads, ¬pc.Writes teamId) {past future : List Section}
    {score : FinalScore}
    (hlog : Service.log lib es
      = past ++ .answered runId (.finalizeRun teamId) (some (.score score)) :: future)
    (hlast : ∀ r score', .answered r (.finalizeRun teamId) (some (.score score')) ∉ future) :
    (teamId, score.compositeScore) ∈ s.shared.store.leaderboard.entries ∧
    ∃ m : RunMetrics, score = m.finalScore runId teamId ∧
      (s.shared.store.scores teamId = fun key ↦ (m.hashVals lib score).lookup key) ∧
      ∀ parse details, (∀ key, details.lookup key = s.shared.store.scores teamId key) →
        ShowsScore (.make parse teamId details) m score := by
  have hcurrent : s.Current lib teamId runId (Service.log lib es) :=
    hguard.exec_emitted (P := fun log s ↦ Service.Current lib teamId runId log s)
      (fun _ _ _ _ hs hg hstep ↦ hs.next hne hg hstep) Service.current_initial h
  have hfuture : ∀ e ∈ future, e.scoreOf teamId = none := by
    intro e he
    rcases hscore : e.scoreOf teamId with _ | score'
    · rfl
    · rw [Section.scoreOf.eq_def] at hscore
      split at hscore
      · split_ifs at hscore with hteam
        subst hteam
        exact absurd he (hlast _ _)
      · simp at hscore
  have hlatest : latestScore teamId (Service.log lib es) = some score := by
    rw [hlog, List.append_cons, latestScore_append hfuture]
    exact latestScore_concat (if_pos rfl)
  obtain ⟨hstored, m, hscore, hhash⟩ := hcurrent.settled hidle score hlatest
  have hfinalized : Finalized (Service.log lib es) teamId score := by
    refine ⟨runId, ?_⟩
    rw [hlog]
    exact List.mem_append_right past List.mem_cons_self
  obtain ⟨run, past', -, hvalue⟩ := hcurrent.real.inv.finalized hfinalized
  refine ⟨hstored, m, hscore, hhash, fun parse details hdetails ↦ ?_⟩
  have hfields : ∀ key, details.lookup key = (m.hashVals lib score).lookup key := by
    intro key
    rw [hdetails, hhash]
  exact showsScore_make hfields hvalue parse teamId

/-- Two finalizations of a run, the second of which has to wait for the first. -/
def twoFinalizations : List ServiceEvent :=
  [.start (.scorer (.ingest (tick "r" true))), .start (.query (.finalizeRun "team") "r"),
    .start (.query (.finalizeRun "team") "r"), .start (.scorer (.ingest (tick "r" false))),
    .run 0 ⟨[], false⟩, .run 0 ⟨[], false⟩, .run 0 ⟨[], false⟩, .run 1 ⟨[], false⟩,
    .run 2 ⟨[], false⟩, .run 1 ⟨[], false⟩, .run 1 ⟨[], false⟩, .run 3 ⟨[], false⟩,
    .run 1 ⟨[], false⟩, .run 1 ⟨[], false⟩, .run 3 ⟨[], false⟩, .run 2 ⟨[], false⟩,
    .run 2 ⟨[], false⟩, .run 2 ⟨[], false⟩, .run 2 ⟨[], false⟩]

instance (teamId runId : String) (s : Service) :
    DecidablePred (s.Undisturbed teamId runId)
  | .start (.query (.finalizeRun t) r) => inferInstanceAs (Decidable (t = teamId → r = runId))
  | .start (.query .getSnapshot _) | .start (.query .getHistogram _) => isTrue trivial
  | .start (.deleteTeam t) => inferInstanceAs (Decidable (t ≠ teamId))
  | .start (.scorer _) | .start .fetchLeaderboard => isTrue trivial
  | .run i env => inferInstanceAs
    (Decidable (env.redisError = true → ∀ pc ∈ s.threads[i]?, ¬pc.Writes teamId))

theorem latest_score_shown_twoFinalizations : ∃ s score,
    exec (Service.step plainLibraries) .initial twoFinalizations = some s ∧
    score.totalOrders = 2 ∧
    ("team", score.compositeScore) ∈ s.shared.store.leaderboard.entries ∧
    ∃ m : RunMetrics, score = m.finalScore "r" "team" ∧
      (s.shared.store.scores "team" = fun key ↦ (m.hashVals plainLibraries score).lookup key) ∧
      ∀ parse details, (∀ key, details.lookup key = s.shared.store.scores "team" key) →
        ShowsScore (.make parse "team" details) m score := by
  have hrun : (exec (Service.step plainLibraries) .initial twoFinalizations).any (fun s ↦
      decide (∀ pc ∈ s.threads, ¬pc.Writes "team")) = true := by
    decide +kernel
  obtain ⟨s, hs, hidle⟩ := (Option.any_eq_true _ _).mp hrun
  have hguard : Guarded (Service.step plainLibraries) (Service.Undisturbed "team" "r") .initial
      twoFinalizations := by
    decide +kernel
  have hlog : Service.log plainLibraries twoFinalizations = [.ingested (tick "r" true),
      .answered "r" (.finalizeRun "team") (some (.score
        (((RunMetrics.new "r").ingest (tick "r" true)).finalScore "r" "team"))),
      .ingested (tick "r" false)] ++ .answered "r" (.finalizeRun "team") (some (.score
        ((((RunMetrics.new "r").ingest (tick "r" true)).ingest (tick "r" false)).finalScore
          "r" "team"))) :: [] := by
    decide +kernel
  exact ⟨s, _, hs, by decide +kernel, latest_score_shown (by decide) hguard hs
    (of_decide_eq_true hidle) hlog fun _ _ h ↦ absurd h List.not_mem_nil⟩

end BenchmarkPlatform.Scoring
