import BenchmarkPlatform.Scoring.Readings

/-!
# The leaderboard shows results

`FinalizeRun` computes a score from the metrics of a run and writes it to Redis in three commands;
DELETE of a team removes it in two; `fetchLeaderboard` reads the range and then one hash after the
other. None of these is atomic, and Redis may fail in between. Whatever is read, each line of a
leaderboard shows a composite score that was computed for that team, and details that belong
together: those of one score of the team, or none at all. This rests on two facts: the scores and
hashes in Redis are those of scores that were computed (`Real`), and a hash is written as a whole,
so that a later score replaces all fields of an earlier one (`lookup_hashVals_or`).
-/

namespace BenchmarkPlatform.Scoring

open Lib Leaderboard

variable {lib : Libraries} {log : List Section}

/-! ## What comes from a score -/

/-- `FinalizeRun` has computed the score for the team. -/
def Finalized (log : List Section) (teamId : String) (score : FinalScore) : Prop :=
  ∃ runId, Section.answered runId (.finalizeRun teamId) (some (.score score)) ∈ log

/-- The hash has the fields of one score of the team, or none. -/
def Recorded (lib : Libraries) (log : List Section) (teamId : String) (details : Details) : Prop :=
  details = (fun _ ↦ none) ∨ ∃ (m : RunMetrics) (score : FinalScore), Finalized log teamId score ∧
    details = fun key ↦ (m.hashVals lib score).lookup key

/-- The entry of the sorted set is a score of the team. -/
def Scored (log : List Section) (e : String × ℚ) : Prop :=
  ∃ score, Finalized log e.1 score ∧ score.compositeScore = e.2

/-- The store has scores that were computed. -/
structure RealStore (lib : Libraries) (log : List Section) (store : Store) : Prop where
  scores : ∀ e ∈ store.leaderboard.entries, Scored log e
  details : ∀ teamId, Recorded lib log teamId (store.scores teamId)

/-- The results are the first of a leaderboard of computed scores. -/
structure Ranked (log : List Section) (results : List (String × ℚ)) : Prop where
  length : results.length ≤ 50
  teams : (results.map Prod.fst).Nodup
  ranked : results.Pairwise Outranks
  scored : ∀ e ∈ results, Scored log e

/-- The entry is made of a score of its team and of a hash of its team. -/
def RealEntry (lib : Libraries) (log : List Section) (e : LeaderboardEntry) : Prop :=
  ∃ rank result details, Scored log result ∧ Recorded lib log result.1 details ∧
    e = makeEntry lib.json rank result details

/-- The entries are a leaderboard of such entries. -/
structure Shown (lib : Libraries) (log : List Section) (entries : List LeaderboardEntry) :
    Prop where
  length : entries.length ≤ 50
  ranks : entries.map LeaderboardEntry.rank = List.range' 1 entries.length
  teams : (entries.map LeaderboardEntry.teamId).Nodup
  scores : (entries.map LeaderboardEntry.compositeScore).Pairwise (· ≥ ·)
  real : ∀ e ∈ entries, RealEntry lib log e

/-- What a thread writes or has read comes from scores. -/
def BackendPc.Real (lib : Libraries) (log : List Section) : BackendPc → Prop
  | .zadd _ score hashVals => Finalized log score.teamId score ∧
    ∃ m : RunMetrics, hashVals = m.hashVals lib score
  | .hmset _ teamId hashVals => ∃ (m : RunMetrics) (score : FinalScore),
    Finalized log teamId score ∧ hashVals = m.hashVals lib score
  | .fetch (.hgetall results replies) => Ranked log results ∧
    List.Forall₂ (fun e details ↦ Recorded lib log e.1 details) (results.take replies.length)
      replies
  | .fetched entries => Shown lib log entries
  | _ => True

/-! ## More scores -/

section

variable (new : List Section)

theorem Finalized.mono {teamId : String} {score : FinalScore} (h : Finalized log teamId score) :
    Finalized (log ++ new) teamId score := by
  obtain ⟨runId, hmem⟩ := h
  exact ⟨runId, List.mem_append_left new hmem⟩

theorem Recorded.mono {teamId : String} {details : Details} (h : Recorded lib log teamId details) :
    Recorded lib (log ++ new) teamId details := by
  rcases h with h | ⟨m, score, hscore, h⟩
  · exact Or.inl h
  · exact Or.inr ⟨m, score, hscore.mono new, h⟩

theorem Scored.mono {e : String × ℚ} (h : Scored log e) : Scored (log ++ new) e := by
  obtain ⟨score, hscore, heq⟩ := h
  exact ⟨score, hscore.mono new, heq⟩

theorem RealStore.mono {store : Store} (h : RealStore lib log store) :
    RealStore lib (log ++ new) store :=
  ⟨fun e he ↦ (h.scores e he).mono new, fun teamId ↦ (h.details teamId).mono new⟩

theorem BackendPc.Real.mono {pc : BackendPc} (h : pc.Real lib log) : pc.Real lib (log ++ new) := by
  cases pc with
  | zadd m score hashVals => exact ⟨h.1.mono new, h.2⟩
  | hmset m teamId hashVals =>
    obtain ⟨m', score, hscore, heq⟩ := h
    exact ⟨m', score, hscore.mono new, heq⟩
  | fetch f =>
    cases f with
    | zrevrange => trivial
    | hgetall results replies =>
      obtain ⟨hranked, hreplies⟩ := h
      exact ⟨⟨hranked.length, hranked.teams, hranked.ranked, fun e he ↦
        (hranked.scored e he).mono new⟩, hreplies.imp fun e details hd ↦ hd.mono new⟩
  | fetched entries =>
    refine ⟨h.length, h.ranks, h.teams, h.scores, fun e he ↦ ?_⟩
    obtain ⟨rank, result, details, hscored, hrecorded, heq⟩ := h.real e he
    exact ⟨rank, result, details, hscored.mono new, hrecorded.mono new, heq⟩
  | _ => trivial

end

/-! ## Writing -/

/-- A list with the same names wins over another at every name. -/
theorem lookup_or_lookup {l l' : List (String × String)} (h : l.map Prod.fst = l'.map Prod.fst)
    (key : String) : (l.lookup key).or (l'.lookup key) = l.lookup key := by
  induction l generalizing l' with
  | nil =>
    obtain rfl : l' = [] := List.map_eq_nil_iff.mp h.symm
    rfl
  | cons p l ih =>
    cases l' with
    | nil => simp at h
    | cons p' l' =>
      rw [List.map_cons, List.map_cons, List.cons.injEq] at h
      obtain ⟨name, value⟩ := p
      obtain ⟨name', value'⟩ := p'
      obtain rfl : name = name' := h.1
      rw [List.lookup_cons, List.lookup_cons]
      cases key == name with
      | true => rfl
      | false => exact ih h.2

/-- **All fields are replaced** when another score is written. -/
theorem lookup_hashVals_or (m m' : RunMetrics) (score score' : FinalScore) (key : String) :
    ((m.hashVals lib score).lookup key).or ((m'.hashVals lib score').lookup key)
      = (m.hashVals lib score).lookup key := by
  have hnames : (m.hashVals lib score).map Prod.fst = (m'.hashVals lib score').map Prod.fst := rfl
  exact lookup_or_lookup hnames key

theorem mem_zadd {z : SortedSet} {teamId : String} {score : ℚ} {e : String × ℚ}
    (h : e ∈ (z.zadd teamId score).entries) : e = (teamId, score) ∨ e ∈ z.entries := by
  rcases (List.mem_orderedInsert Outranks).mp h with h | h
  · exact Or.inl h
  · exact Or.inr (List.mem_of_mem_filter h)

theorem RealStore.zadd {store : Store} (h : RealStore lib log store) {score : FinalScore}
    (hscore : Finalized log score.teamId score) :
    RealStore lib log (store.run (.zadd score.teamId score.compositeScore)) where
  scores e he := by
    rcases mem_zadd he with rfl | he
    · exact ⟨score, hscore, rfl⟩
    · exact h.scores e he
  details := h.details

theorem RealStore.hmset {store : Store} (h : RealStore lib log store) {teamId : String}
    {m : RunMetrics} {score : FinalScore} (hscore : Finalized log teamId score) :
    RealStore lib log (store.run (.hmset teamId (m.hashVals lib score))) where
  scores := h.scores
  details t := by
    rcases eq_or_ne t teamId with rfl | hne
    · refine Or.inr ⟨m, score, hscore, ?_⟩
      rw [Store.run]
      dsimp only
      rw [Function.update_self]
      funext key
      rcases h.details t with hold | ⟨m', score', -, hold⟩
      · rw [hold, Option.or_none]
      · rw [hold, lookup_hashVals_or]
    · rw [Store.run]
      dsimp only
      rw [Function.update_of_ne hne]
      exact h.details t

theorem RealStore.zrem {store : Store} (h : RealStore lib log store) (teamId : String) :
    RealStore lib log (store.run (.zrem teamId)) where
  scores e he := h.scores e (List.mem_of_mem_filter he)
  details := h.details

theorem RealStore.del {store : Store} (h : RealStore lib log store) (teamId : String) :
    RealStore lib log (store.run (.del teamId)) where
  scores := h.scores
  details t := by
    rw [Store.run]
    dsimp only
    rcases eq_or_ne t teamId with rfl | hne
    · rw [Function.update_self]
      exact Or.inl rfl
    · rw [Function.update_of_ne hne]
      exact h.details t

/-! ## Reading -/

theorem RealStore.ranked {store : Store} (h : RealStore lib log store) :
    Ranked log store.zrevrange where
  length := List.length_take_le 50 store.leaderboard.entries
  teams := store.leaderboard.unique.sublist ((List.take_sublist 50 _).map Prod.fst)
  ranked := store.leaderboard.ranked.take
  scored e he := h.scores e (List.mem_of_mem_take he)

section

variable {json : JsonNumbers} {results : List (String × ℚ)} {replies : List Details}

/-- The entries, when there is a reply for each result. -/
theorem map_makeEntries_of_length {α : Type*} {f : LeaderboardEntry → α} {g : String × ℚ → α}
    (hfg : ∀ rank result details, f (makeEntry json rank result details) = g result) (rank : ℕ)
    (hlength : results.length = replies.length) :
    (makeEntries json rank results replies).map f = results.map g := by
  induction results generalizing rank replies with
  | nil => rfl
  | cons result results ih =>
    cases replies with
    | nil => simp at hlength
    | cons details replies =>
      rw [makeEntries, List.map_cons, List.map_cons, hfg, ih _ (Nat.succ.inj hlength)]

theorem map_rank_makeEntries_of_length (rank : ℕ) (hlength : results.length = replies.length) :
    (makeEntries json rank results replies).map LeaderboardEntry.rank
      = List.range' rank results.length := by
  induction results generalizing rank replies with
  | nil => rfl
  | cons result results ih =>
    cases replies with
    | nil => simp at hlength
    | cons details replies =>
      rw [makeEntries, List.map_cons, ih _ (Nat.succ.inj hlength), List.length_cons,
        List.range'_succ]
      rfl

theorem real_makeEntries (rank : ℕ) (hscored : ∀ e ∈ results, Scored log e)
    (hreplies : List.Forall₂ (fun e details ↦ Recorded lib log e.1 details) results replies) :
    ∀ e ∈ makeEntries lib.json rank results replies, RealEntry lib log e := by
  induction hreplies generalizing rank with
  | nil => exact fun e he ↦ absurd he List.not_mem_nil
  | cons hrecorded _ ih =>
    intro e he
    rcases List.mem_cons.mp he with rfl | he
    · exact ⟨rank, _, _, hscored _ List.mem_cons_self, hrecorded, rfl⟩
    · exact ih _ (fun e he ↦ hscored e (List.mem_cons_of_mem _ he)) e he

/-- What is made of the results and all replies. -/
theorem Ranked.shown (h : Ranked log results)
    (hreplies : List.Forall₂ (fun e details ↦ Recorded lib log e.1 details) results replies) :
    Shown lib log (makeEntries lib.json 1 results replies) := by
  have hlength := hreplies.length_eq
  have hentries : (makeEntries lib.json 1 results replies).length = results.length := by
    rw [← List.length_map LeaderboardEntry.teamId,
      map_makeEntries_of_length (fun _ _ _ ↦ rfl : ∀ rank result details,
        (makeEntry lib.json rank result details).teamId = Prod.fst result) 1 hlength,
      List.length_map]
  refine ⟨?_, ?_, ?_, ?_, real_makeEntries 1 h.scored hreplies⟩
  · rw [hentries]
    exact h.length
  · rw [map_rank_makeEntries_of_length 1 hlength, hentries]
  · rw [map_makeEntries_of_length (fun _ _ _ ↦ rfl : ∀ rank result details,
      (makeEntry lib.json rank result details).teamId = Prod.fst result) 1 hlength]
    exact h.teams
  · rw [map_makeEntries_of_length (fun _ _ _ ↦ rfl : ∀ rank result details,
      (makeEntry lib.json rank result details).compositeScore = Prod.snd result) 1 hlength]
    exact List.pairwise_map.mpr (h.ranked.imp fun hab ↦ Prod.Lex.monotone_fst _ _ hab)

end

/-! ## One step -/

/-- **One step** of a thread: what is in Redis and what the thread has in hand comes from scores. -/
theorem Backend.real_advance {s s' : Backend} {env : BackendEnv} {pc pc' : BackendPc}
    (hstore : RealStore lib log s.store) (hpc : pc.Real lib log)
    (h : s.advance lib env pc = some (s', pc')) :
    RealStore lib (log ++ s.sections lib pc) s'.store ∧
      pc'.Real lib (log ++ s.sections lib pc) := by
  -- the steps that leave Redis as it is, to a thread that has nothing in hand
  have hkeep : s'.store = s.store → pc'.Real lib (log ++ s.sections lib pc) →
      RealStore lib (log ++ s.sections lib pc) s'.store ∧
        pc'.Real lib (log ++ s.sections lib pc) := by
    intro hsame hreal
    rw [hsame]
    exact ⟨hstore.mono _, hreal⟩
  cases pc with
  | scorer pc =>
    rw [Backend.advance] at h
    split_ifs at h
    obtain ⟨⟨t, pc''⟩, -, heq⟩ := Option.map_eq_some_iff.mp h
    obtain ⟨rfl, rfl⟩ := Prod.mk.inj heq
    exact hkeep rfl trivial
  | find q runId =>
    rw [Backend.advance] at h
    split at h
    all_goals
      obtain ⟨rfl, rfl⟩ := Prod.mk.inj (Option.some_inj.mp h)
      exact hkeep rfl trivial
  | read q runId m =>
    rw [Backend.advance] at h
    split_ifs at h
    obtain ⟨r, hr, heq⟩ := Option.map_eq_some_iff.mp h
    cases q with
    | finalizeRun teamId =>
      rw [Backend.read] at heq
      split_ifs at heq
      · obtain ⟨rfl, rfl⟩ := Prod.mk.inj heq
        exact hkeep rfl trivial
      · -- the score that will be written is the one that is answered
        obtain ⟨rfl, rfl⟩ := Prod.mk.inj heq
        refine hkeep rfl ⟨⟨runId, List.mem_append_right _ ?_⟩, r, rfl⟩
        rw [Backend.sections, hr]
        exact List.mem_cons_self
    | getSnapshot | getHistogram =>
      obtain ⟨rfl, rfl⟩ := Prod.mk.inj heq
      exact hkeep rfl trivial
  | zadd m score hashVals =>
    obtain ⟨hscore, r, rfl⟩ := hpc
    rw [Backend.advance] at h
    split_ifs at h
    · obtain ⟨rfl, rfl⟩ := Prod.mk.inj (Option.some_inj.mp h)
      exact hkeep rfl trivial
    · obtain ⟨rfl, rfl⟩ := Prod.mk.inj (Option.some_inj.mp h)
      exact ⟨(hstore.zadd hscore).mono _, r, score, hscore.mono _, rfl⟩
  | hmset m teamId hashVals =>
    obtain ⟨r, score, hscore, rfl⟩ := hpc
    rw [Backend.advance] at h
    split_ifs at h
    · obtain ⟨rfl, rfl⟩ := Prod.mk.inj (Option.some_inj.mp h)
      exact hkeep rfl trivial
    · obtain ⟨rfl, rfl⟩ := Prod.mk.inj (Option.some_inj.mp h)
      exact ⟨(hstore.hmset hscore).mono _, trivial⟩
  | zrem name =>
    rw [Backend.advance] at h
    split_ifs at h
    · obtain ⟨rfl, rfl⟩ := Prod.mk.inj (Option.some_inj.mp h)
      exact hkeep rfl trivial
    · obtain ⟨rfl, rfl⟩ := Prod.mk.inj (Option.some_inj.mp h)
      exact ⟨(hstore.zrem name).mono _, trivial⟩
  | del name =>
    rw [Backend.advance] at h
    split_ifs at h
    · obtain ⟨rfl, rfl⟩ := Prod.mk.inj (Option.some_inj.mp h)
      exact hkeep rfl trivial
    · obtain ⟨rfl, rfl⟩ := Prod.mk.inj (Option.some_inj.mp h)
      exact ⟨(hstore.del name).mono _, trivial⟩
  | publish m teamId | refresh =>
    rw [Backend.advance] at h
    split_ifs at h
    all_goals
      obtain ⟨rfl, rfl⟩ := Prod.mk.inj (Option.some_inj.mp h)
      exact hkeep rfl trivial
  | fetch f =>
    have hlog : log ++ s.sections lib (.fetch f) = log := List.append_nil log
    rw [hlog] at hkeep ⊢
    rw [Backend.advance] at h
    split_ifs at h
    · obtain ⟨rfl, rfl⟩ := Prod.mk.inj (Option.some_inj.mp h)
      exact hkeep rfl trivial
    · cases f with
      | zrevrange =>
        rw [Fetch.advance] at h
        split_ifs at h
        · obtain ⟨rfl, rfl⟩ := Prod.mk.inj (Option.some_inj.mp h)
          exact hkeep rfl ⟨Nat.zero_le _, rfl, List.nodup_nil, List.Pairwise.nil,
            fun e he ↦ absurd he List.not_mem_nil⟩
        · obtain ⟨rfl, rfl⟩ := Prod.mk.inj (Option.some_inj.mp h)
          exact hkeep rfl ⟨hstore.ranked, List.Forall₂.nil⟩
      | hgetall results replies =>
        obtain ⟨hranked, hreplies⟩ := hpc
        rw [Fetch.advance] at h
        cases hnext : results[replies.length]? with
        | none =>
          rw [hnext] at h
          obtain ⟨rfl, rfl⟩ := Prod.mk.inj (Option.some_inj.mp h)
          rw [List.take_of_length_le (List.getElem?_eq_none_iff.mp hnext)] at hreplies
          exact hkeep rfl (hranked.shown hreplies)
        | some result =>
          rw [hnext] at h
          obtain ⟨rfl, rfl⟩ := Prod.mk.inj (Option.some_inj.mp h)
          refine hkeep rfl ⟨hranked, ?_⟩
          rw [List.length_append, List.length_singleton, List.take_add_one, hnext]
          exact List.rel_append hreplies
            (List.Forall₂.cons (hstore.details result.1) List.Forall₂.nil)
  | fetched entries | done => simp [Backend.advance] at h

/-! ## Runs -/

/-- The invariant of the service and of what is in Redis. -/
structure Service.Real (lib : Libraries) (log : List Section) (s : Service) : Prop where
  inv : s.Inv lib log
  store : RealStore lib log s.shared.store
  threads : ∀ pc ∈ s.threads, pc.Real lib log

theorem Service.Real.next {s t : Service} {e : ServiceEvent} (h : s.Real lib log)
    (hstep : s.step lib e = some t) : t.Real lib (log ++ s.sections lib e) := by
  have hinv := h.inv.next hstep
  cases e with
  | start call =>
    obtain rfl := Option.some_inj.mp hstep
    rw [Service.sections, List.append_nil] at hinv ⊢
    refine ⟨hinv, h.store, Pool.forall_start h.threads ?_⟩
    cases call <;> trivial
  | run i env =>
    obtain ⟨l, pc, r, s', pc', hthreads, hi, hadvance, rfl⟩ := Pool.next_run hstep
    have hsections : s.sections lib (.run i env) = s.shared.sections lib pc := by
      rw [Service.sections, hthreads, ← hi]
      simp
    have hreal := h.threads
    rw [hthreads] at hreal
    obtain ⟨hstore, hpc'⟩ := Backend.real_advance h.store (hreal pc (by simp)) hadvance
    rw [hsections] at hinv ⊢
    exact ⟨hinv, hstore, Pool.forall_run hreal (fun q hq ↦ hq.mono _) hpc'⟩

theorem Service.real_initial : Service.initial.Real lib [] where
  inv := Service.inv_initial
  store := ⟨fun _ he ↦ absurd he List.not_mem_nil, fun _ ↦ Or.inl rfl⟩
  threads _ hpc := absurd hpc List.not_mem_nil

theorem Service.real_of_exec {es : List ServiceEvent} {s : Service}
    (h : exec (Service.step lib) .initial es = some s) : s.Real lib (Service.log lib es) :=
  exec_emitted (P := fun log s ↦ Service.Real lib log s) (fun _ _ _ _ hs hstep ↦ hs.next hstep)
    Service.real_initial h

/-! ## What a reader sees -/

/-- The score is that of a run after what had happened to it. -/
theorem Service.Inv.finalized {s : Service} (h : s.Inv lib log) {teamId : String}
    {score : FinalScore} (hscore : Finalized log teamId score) : ∃ runId past,
      past <+: log ∧ score = (metricsAfter runId past).finalScore runId teamId := by
  obtain ⟨runId, hmem⟩ := hscore
  obtain ⟨past, future, hlog⟩ := List.append_of_mem hmem
  have hanswer := answer_of_right (h.right past _ future hlog)
  exact ⟨runId, past, ⟨_, hlog.symm⟩, Answer.score.inj hanswer⟩

theorem getBucketValue_lt_pow (i : Fin 12000) : getBucketValue i < 10 ^ 12 := by
  refine (getBucketValue_mono (Nat.le_of_lt_succ i.isLt)).trans_lt ?_
  by_contra hle
  rw [not_lt, le_getBucketValue_iff (by decide) (by decide)] at hle
  have hpow : ((10 : ℤ) ^ 12).toNat ^ 1000 = 10 ^ 12000 := by
    rw [show ((10 : ℤ) ^ 12).toNat = 10 ^ 12 by decide, ← pow_mul]
  rw [hpow] at hle
  exact absurd ((Nat.pow_le_pow_iff_right (by decide)).mp hle) (by decide)

theorem RunMetrics.Sound.latencyUs_lt {m : RunMetrics} (h : m.Sound) {p : ℚ} (hp : 0 < p)
    (hle : p ≤ 100) : m.latencyUs p < 10 ^ 12 := by
  obtain ⟨values, -, hvalues⟩ := h.histogram
  rw [latencyUs, hvalues]
  split_ifs with hcount
  · have hne : values ≠ [] := by
      rintro rfl
      exact absurd hcount (Nat.lt_irrefl 0)
    obtain ⟨v, -, hstop⟩ := Histogram.exists_stopBucket hne hp hle
    rw [Histogram.valueAtPercentile_of_stopBucket hstop]
    have hlt := getBucketValue_lt_pow (getBucket v)
    have hnonneg := getBucketValue_nonneg (getBucket v)
    exact (Int.tdiv_le_self _ hnonneg).trans_lt hlt
  · decide

/-- The text of a number, read as JSON. -/
theorem parseJsonNumberInt_toString
    (hint : ∀ n : ℕ, n < 2 ^ 63 → lib.json.int (toString n) = some (n : ℤ)) {k : ℤ} (hk : 0 ≤ k)
    (hlt : k < 2 ^ 63) : lib.json.parseJsonNumberInt (toString k) = k := by
  obtain ⟨n, rfl⟩ := Int.eq_ofNat_of_zero_le hk
  have hsame : toString ((n : ℕ) : ℤ) = toString n := rfl
  rw [JsonNumbers.parseJsonNumberInt, hsame, hint n (by omega), Option.getD_some]

/-- The details of an entry are those of a score. -/
structure ShowsDetails (lib : Libraries) (e : LeaderboardEntry) (score : FinalScore) : Prop where
  latencyP50Us : e.latencyP50Us = score.latencyP50Us
  latencyP90Us : e.latencyP90Us = score.latencyP90Us
  latencyP99Us : e.latencyP99Us = score.latencyP99Us
  maxTps : score.maxTps < 2 ^ 63 → e.maxTps = score.maxTps
  correctness :
    e.correctness = lib.json.parseJsonNumberDouble (lib.toString score.correctness)

/-- The entry has no details. -/
structure Blank (e : LeaderboardEntry) : Prop where
  latencyP50Us : e.latencyP50Us = 0
  latencyP90Us : e.latencyP90Us = 0
  latencyP99Us : e.latencyP99Us = 0
  maxTps : e.maxTps = 0
  correctness : e.correctness = 0

theorem Service.Inv.details {s : Service} (h : s.Inv lib log)
    (hint : ∀ n : ℕ, n < 2 ^ 63 → lib.json.int (toString n) = some (n : ℤ)) (rank : ℕ)
    {result : String × ℚ} {details : Details} (hdetails : Recorded lib log result.1 details) :
    Blank (makeEntry lib.json rank result details) ∨ ∃ score, Finalized log result.1 score ∧
      ShowsDetails lib (makeEntry lib.json rank result details) score := by
  rcases hdetails with rfl | ⟨m, score, hscore, rfl⟩
  · exact Or.inl ⟨rfl, rfl, rfl, rfl, rfl⟩
  · obtain ⟨runId, past, -, hvalue⟩ := h.finalized hscore
    have hsound := sound_metricsAfter runId past
    have hparse : ∀ p : ℚ, 0 < p → p ≤ 100 →
        lib.json.parseJsonNumberInt (toString ((metricsAfter runId past).latencyUs p))
          = (metricsAfter runId past).latencyUs p := fun p hp hle ↦
      parseJsonNumberInt_toString hint (hsound.latencyUs_nonneg hp hle)
        ((hsound.latencyUs_lt hp hle).trans (by decide))
    refine Or.inr ⟨score, hscore, ?_⟩
    subst hvalue
    refine ⟨hparse 50 (by norm_num) (by norm_num), hparse 90 (by norm_num) (by norm_num),
      hparse 99 (by norm_num) (by norm_num), fun hlt ↦ ?_, rfl⟩
    exact parseJsonNumberInt_toString hint (Int.natCast_nonneg _) (by exact_mod_cast hlt)

/-- **The leaderboard shows results.** However ingests, flushes, finalizations, deletions and
readers interleave, and wherever Redis fails: what `fetchLeaderboard` returns has at most 50
entries, ranked from one, of different teams, by descending score. The composite score of each entry
was computed by `FinalizeRun` for that team, and lies between 0 and 1. Its details are all of one
score that was computed for the team, so that its percentiles are ordered, or it has none. -/
theorem leaderboard_shows_results
    (hint : ∀ n : ℕ, n < 2 ^ 63 → lib.json.int (toString n) = some (n : ℤ))
    {es : List ServiceEvent} {s : Service} (h : exec (Service.step lib) .initial es = some s)
    {entries : List LeaderboardEntry} (hentries : BackendPc.fetched entries ∈ s.threads) :
    entries.length ≤ 50 ∧
    entries.map LeaderboardEntry.rank = List.range' 1 entries.length ∧
    (entries.map LeaderboardEntry.teamId).Nodup ∧
    (entries.map LeaderboardEntry.compositeScore).Pairwise (· ≥ ·) ∧
    ∀ e ∈ entries,
      (∃ score, Finalized (Service.log lib es) e.teamId score ∧
        e.compositeScore = score.compositeScore) ∧
      0 ≤ e.compositeScore ∧ e.compositeScore ≤ 1 ∧
      (Blank e ∨ ∃ score, Finalized (Service.log lib es) e.teamId score ∧
        ShowsDetails lib e score) ∧
      0 ≤ e.latencyP50Us ∧ e.latencyP50Us ≤ e.latencyP90Us ∧
        e.latencyP90Us ≤ e.latencyP99Us := by
  have hreal := Service.real_of_exec h
  have hshown : Shown lib (Service.log lib es) entries := hreal.threads _ hentries
  have hconsistent : ∀ teamId score, Finalized (Service.log lib es) teamId score →
      score.Consistent := by
    intro teamId score hscore
    obtain ⟨runId, past, -, rfl⟩ := hreal.inv.finalized hscore
    exact (sound_metricsAfter runId past).consistent_finalScore runId teamId
  refine ⟨hshown.length, hshown.ranks, hshown.teams, hshown.scores, fun e he ↦ ?_⟩
  obtain ⟨rank, result, details, ⟨score, hscore, hcomposite⟩, hdetails, rfl⟩ := hshown.real e he
  have hbounds := (hconsistent _ score hscore).composite
  rw [hcomposite] at hbounds
  have hshows := hreal.inv.details hint rank hdetails
  refine ⟨⟨score, hscore, hcomposite.symm⟩, hbounds.1, hbounds.2, hshows, ?_⟩
  rcases hshows with hblank | ⟨score', hscore', hshows⟩
  · rw [hblank.latencyP50Us, hblank.latencyP90Us, hblank.latencyP99Us]
    exact ⟨le_rfl, le_rfl, le_rfl⟩
  · have hordered := hconsistent _ score' hscore'
    rw [hshows.latencyP50Us, hshows.latencyP90Us, hshows.latencyP99Us]
    exact ⟨hordered.p50, hordered.p90, hordered.p99⟩

theorem plainLibraries_int (n : ℕ) : plainLibraries.json.int (toString n) = some (n : ℤ) := by
  have htoList : (toString n).toList = Nat.toDigits 10 n := String.toList_ofList
  have hdigits : ∀ c ∈ Nat.toDigits 10 n, c.isDigit = true := fun c hc ↦
    Nat.isDigit_of_mem_toDigits (by decide) (by decide) hc
  rw [plainLibraries]
  dsimp only
  rw [htoList, if_pos ⟨Nat.toDigits_ne_nil, List.all_eq_true.mpr hdigits⟩,
    Nat.ofDigitChars_ten_toDigits]

/-- A score is written while the leaderboard is read. -/
def readRun : List ServiceEvent :=
  [.start (.scorer (.ingest (tick "r" true))), .start (.query (.finalizeRun "team") "r"),
    .start .fetchLeaderboard, .run 0 ⟨[], false⟩, .run 0 ⟨[], false⟩, .run 0 ⟨[], false⟩,
    .run 1 ⟨[], false⟩, .run 1 ⟨[], false⟩, .run 1 ⟨[], false⟩, .run 2 ⟨[], false⟩,
    .run 1 ⟨[], false⟩, .run 2 ⟨[], false⟩, .run 2 ⟨[], false⟩]

theorem leaderboard_shows_results_readRun : ∃ s entries,
    exec (Service.step plainLibraries) .initial readRun = some s ∧
    BackendPc.fetched entries ∈ s.threads ∧ entries.length = 1 ∧ entries.length ≤ 50 ∧
    entries.map LeaderboardEntry.rank = List.range' 1 entries.length ∧
    (entries.map LeaderboardEntry.teamId).Nodup ∧
    (entries.map LeaderboardEntry.compositeScore).Pairwise (· ≥ ·) ∧
    ∀ e ∈ entries,
      (∃ score, Finalized (Service.log plainLibraries readRun) e.teamId score ∧
        e.compositeScore = score.compositeScore) ∧
      0 ≤ e.compositeScore ∧ e.compositeScore ≤ 1 ∧
      (Blank e ∨ ∃ score, Finalized (Service.log plainLibraries readRun) e.teamId score ∧
        ShowsDetails plainLibraries e score) ∧
      0 ≤ e.latencyP50Us ∧ e.latencyP50Us ≤ e.latencyP90Us ∧
        e.latencyP90Us ≤ e.latencyP99Us := by
  have hrun : (exec (Service.step plainLibraries) .initial readRun).any (fun s ↦
      s.threads[2]?.any fun pc ↦ match pc with
        | .fetched entries => decide (entries.length = 1)
        | _ => false) = true := by
    decide +kernel
  obtain ⟨s, hs, hthread⟩ := (Option.any_eq_true _ _).mp hrun
  obtain ⟨pc, hpc, hfetched⟩ := (Option.any_eq_true _ _).mp hthread
  split at hfetched
  · rename_i entries
    have hmem := List.mem_of_getElem? hpc
    exact ⟨s, entries, hs, hmem, of_decide_eq_true hfetched,
      leaderboard_shows_results (fun n _ ↦ plainLibraries_int n) hs hmem⟩
  · exact absurd hfetched (by simp)

end BenchmarkPlatform.Scoring
