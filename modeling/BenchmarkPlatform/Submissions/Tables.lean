import BenchmarkPlatform.Submissions.Gate

/-!
# Uploads as transactions

The model of the leaderboard takes POST submit for one transaction, and the model of the upload
follows the handler from stage to stage, wherever it is thrown out of its course. The second refines
the first: what a run of uploads leaves in the tables of teams and submissions is what a run of the
transactions leaves there.
-/

namespace BenchmarkPlatform.Uploads

open Lib
open Teams (Team)

/-! ## One upload -/

/-- What the transaction reads of the environment. -/
def Env.forTeams (env : Env) : Teams.Env where
  dbError := false
  redisError := env.redisError
  served := false
  report := none
  submissionId := env.submissionId
  teamId := env.teamId
  apiKey := "api-key-" ++ env.apiKeyId

/-- The database is as it was, or the transaction has been committed. -/
def Transacted (env : Env) (team : String) (d : Database) (w : World) : Prop :=
  w.db = d ∨ ∃ t, d.shared.submit env.forTeams team = some (w.db.shared, t)

section

variable {p : World → Prop} {d : Database}

theorem resolveTeamUuid_resolves (env : Env) (u : Upload) (d : Database) :
    Meets p (resolveTeamUuid env d u.team true)
      (fun result w ↦ p w ∧ result.1.submissions = d.submissions ∧
        ∃ t, result.2 = t.id ∧
          d.shared.resolveTeam env.forTeams u.team = some (result.1.shared, t))
      fun _ ↦ p := by
  rw [resolveTeamUuid, if_neg u.team_ne]
  refine (reach_meets env .resolve).bind fun _ ↦ ?_
  rw [Teams.Shared.resolveTeam, if_neg u.team_ne]
  cases hfind : d.shared.findTeam u.team with
  | some t => exact Meets.pure fun w hp ↦ ⟨hp, rfl, t, rfl, rfl⟩
  | none =>
    dsimp only
    rw [if_pos ⟨rfl, u.validName_team⟩, if_pos u.validName_team]
    cases hinsert : d.insertTeam env.teamId u.team ("api-key-" ++ env.apiKeyId) with
    | none => exact Meets.throw fun _ hp ↦ hp
    | some d' =>
      rw [Database.insertTeam] at hinsert
      split_ifs at hinsert with hused
      obtain rfl := Option.some_inj.mp hinsert
      have hinserted : d.shared.insertTeam ⟨env.teamId, u.team, "api-key-" ++ env.apiKeyId⟩
          = some { d.shared with
            teams := d.teams ++ [⟨env.teamId, u.team, "api-key-" ++ env.apiKeyId⟩] } :=
        if_neg hused
      refine Meets.pure fun w hp ↦
        ⟨hp, rfl, ⟨env.teamId, u.team, "api-key-" ++ env.apiKeyId⟩, rfl, ?_⟩
      exact congrArg (Option.map _) hinserted

/-- The tables with the new row are those that the transaction leaves. -/
theorem submit_eq {env : Env} {u : Upload} {d d' : Database} {t : Team} (url : String)
    (hresolve : d.shared.resolveTeam env.forTeams u.team = some (d'.shared, t))
    (hnew : ∀ row ∈ d'.submissions, row.id ≠ env.submissionId) :
    d.shared.submit env.forTeams u.team = some (({ d' with
      submissions := d'.submissions ++ [u.row env t.id url] } : Database).shared, t) := by
  have hrow : d'.shared.row env.submissionId = none := by
    refine List.find?_eq_none.mpr fun row hmem ↦ ?_
    obtain ⟨row', hrow', rfl⟩ := List.mem_map.mp hmem
    simpa using hnew row' hrow'
  have hcommits : ¬(env.forTeams.dbError = true ∨
      (d'.shared.row env.forTeams.submissionId).isSome = true) := by
    rintro (herror | hsome)
    · cases herror
    · have hsame : env.forTeams.submissionId = env.submissionId := rfl
      rw [hsame, hrow] at hsome
      cases hsome
  rw [Teams.Shared.submit, hresolve]
  dsimp only
  rw [if_neg hcommits]
  simp [Database.shared, Upload.row, Env.forTeams]

/-- What follows the commit leaves the tables as they are. -/
theorem announce_keeps (env : Env) (u : Upload) (url : String) :
    Meets (fun w ↦ w.db = d) (announce env u url) (fun _ w ↦ w.db = d) fun _ w ↦ w.db = d := by
  have hadd : Meets (fun w ↦ w.db = d) (addActive env) (fun _ w ↦ w.db = d)
      fun _ w ↦ w.db = d := by
    rw [addActive]
    split_ifs
    · exact Meets.pure fun _ h ↦ h
    · exact Meets.modify fun _ h ↦ h
  refine (reach_meets env .trigger).bind fun _ ↦ (Meets.modify ?_).bind fun _ ↦
    hadd.bind fun _ ↦ (reach_meets env .convert).bind fun _ ↦
      (reach_meets env .respond).bind fun _ ↦ Meets.pure fun _ h ↦ h
  exact fun _ h ↦ h

theorem storeSubmission_transacts (env : Env) (u : Upload) (url : String) :
    Meets (fun w ↦ w.db = d) (storeSubmission env u url) (fun _ ↦ Transacted env u.team d)
      fun _ ↦ Transacted env u.team d := by
  have hrolled : ∀ (_ : String) (w : World), w.db = d → Transacted env u.team d w :=
    fun _ _ h ↦ .inl h
  refine ((reach_meets env .acquire).imp_throws hrolled).bind fun _ ↦ Meets.get.bind fun w₀ ↦ ?_
  refine Meets.of_state ?_
  rintro w ⟨rfl, rfl⟩
  refine ((resolveTeamUuid_resolves env u w₀.db).imp_throws fun _ _ h ↦ h ▸ .inl rfl).bind ?_
  rintro ⟨d', teamId⟩
  refine Meets.of_state ?_
  rintro w₀ ⟨rfl, hsubmissions, t, hid, hresolve⟩
  dsimp only at hsubmissions hid hresolve ⊢
  subst hid
  by_cases hteam : t.id = ""
  · rw [if_pos hteam]
    exact Meets.pure fun _ h ↦ h ▸ .inl rfl
  rw [if_neg hteam]
  refine ((insertSubmission_meets env d' _).imp_throws fun _ _ h ↦ h ▸ .inl rfl).bind fun d'' ↦ ?_
  refine Meets.of_state ?_
  rintro w₀ ⟨rfl, rfl, hnew⟩
  refine ((reach_meets env .commit).imp_throws fun _ _ h ↦ h ▸ .inl rfl).bind fun _ ↦
    (Meets.modify (q := fun _ w ↦ w.db = { d' with
      submissions := d'.submissions ++ [u.row env t.id url] }) ?_).bind fun _ ↦ ?_
  · exact fun _ _ ↦ rfl
  have hcommitted (w : World) (hw : w.db = { d' with
      submissions := d'.submissions ++ [u.row env t.id url] }) : Transacted env u.team w₀.db w :=
    .inr ⟨t, (congrArg Database.shared hw) ▸ submit_eq url hresolve hnew⟩
  exact (announce_keeps env u url).imp (fun _ ↦ hcommitted) fun _ ↦ hcommitted

/-- **An upload is one transaction or none**, whatever is thrown in it. -/
theorem submit_transacts (env : Env) (u : Upload) :
    Meets (fun w ↦ w.db = d) (submit env u) (fun _ ↦ Transacted env u.team d)
      fun _ ↦ Transacted env u.team d := by
  have hupload : Meets (fun w ↦ w.db = d) (uploadSource env u) (fun _ w ↦ w.db = d)
      fun _ w ↦ w.db = d := by
    intro w hw
    cases hthrows : env.throws .upload with
    | some what =>
      rw [outcome_uploadSource_of_some u hthrows]
      dsimp only
      split_ifs
      · exact hw
      · exact hw
    | none =>
      rw [outcome_uploadSource_of_none u hthrows]
      exact hw
  have htry : Meets (fun w ↦ w.db = d) (tryBlock env u) (fun _ ↦ Transacted env u.team d)
      fun _ ↦ Transacted env u.team d := by
    refine hupload.observing.bind fun result ↦ ?_
    rcases result with what | url
    · exact Meets.pure fun _ h ↦ .inl h
    · exact storeSubmission_transacts env u url
  refine htry.tryCatch fun what ↦ (Meets.modify fun w h ↦ ?_).bind fun _ ↦ Meets.pure fun _ h ↦ h
  exact h

end

/-! ## Runs -/

/-- The events of the transactions of some requests, one after the other, in a pool with `n`
threads. With each request goes the team that its form names. -/
def transactions (n : ℕ) : List (Posted × String) → List Teams.Event
  | [] => []
  | (c, team) :: rest =>
    .start (.submit team) :: .run n c.env.forTeams :: transactions (n + 1) rest

/-- Some of the requests, each at most once and in their order, have been accepted, and their
transactions lead from the tables before to the tables after. -/
def Simulated (maxUploadSize : ℤ) (w₀ : World) (calls : List Posted) (w : World) : Prop :=
  ∃ committed : List (Posted × String), (committed.map Prod.fst).Sublist calls ∧
    (∀ p ∈ committed, ∃ u : Accepted maxUploadSize, p.1.Accepts u ∧ u.team = p.2) ∧
    ∀ threads, exec Teams.step ⟨w₀.db.shared, threads⟩ (transactions threads.length committed)
      = some ⟨w.db.shared, threads ++ List.replicate committed.length (.done none)⟩

/-- A transaction that is committed is two steps of the tables' machine. -/
theorem exec_transactions_cons {s s' : Teams.Shared} {threads : List Teams.Pc} {c : Posted}
    {team : String} {t : Team} {rest : List (Posted × String)} {q : Teams.State}
    (h : s.submit c.env.forTeams team = some (s', t))
    (hrest : exec Teams.step ⟨s', threads ++ [.done none]⟩ (transactions (threads.length + 1) rest)
      = some q) :
    exec Teams.step ⟨s, threads⟩ (transactions threads.length ((c, team) :: rest)) = some q := by
  have hstart : Teams.step ⟨s, threads⟩ (.start (Teams.Call.submit team))
      = some ⟨s, threads ++ [Teams.Pc.submit team]⟩ := rfl
  have hget : (threads ++ [Teams.Pc.submit team])[threads.length]? = some (.submit team) := by
    rw [List.getElem?_append_right le_rfl, Nat.sub_self]
    rfl
  have hadvance : Teams.advance s c.env.forTeams (.submit team) = some (s', .done none) := by
    rw [Teams.advance, h]
    rfl
  have hset : (threads ++ [Teams.Pc.submit team]).set threads.length (.done none)
      = threads ++ [.done none] := by
    rw [List.set_append_right _ _ le_rfl, Nat.sub_self]
    rfl
  have hrun : Teams.step ⟨s, threads ++ [Teams.Pc.submit team]⟩
      (.run threads.length c.env.forTeams) = some ⟨s', threads ++ [.done none]⟩ :=
    hset ▸ Pool.run_eq_some hget hadvance
  rw [transactions, exec_cons, hstart, Option.bind_some, exec_cons, hrun, Option.bind_some]
  exact hrest

/-- **Uploads are transactions.** What any run of requests leaves in the tables, whatever is thrown
in them, the transactions of some of the accepted requests leave there, in the order of the requests
and each at most once. -/
theorem uploads_simulated (maxUploadSize : ℤ) {w₀ w : World} {calls : List Posted}
    (h : exec (World.post maxUploadSize) w₀ calls = some w) :
    Simulated maxUploadSize w₀ calls w := by
  induction calls generalizing w₀ with
  | nil =>
    obtain rfl := Option.some_inj.mp h
    refine ⟨[], List.nil_sublist _, fun p hp ↦ absurd hp List.not_mem_nil, fun threads ↦ ?_⟩
    rw [List.length_nil, List.replicate_zero, List.append_nil]
    rfl
  | cons c calls ih =>
    obtain ⟨w₁, hpost, hrest⟩ := exec_cons_eq_some.mp h
    obtain ⟨committed, hsublist, haccepted, hexec⟩ := ih hrest
    have hskipped (hsame : w₁.db = w₀.db) : Simulated maxUploadSize w₀ (c :: calls) w :=
      ⟨committed, hsublist.cons c, haccepted, hsame ▸ hexec⟩
    rcases World.post_cases hpost with hsame | ⟨u, hu, hsubmit⟩
    · exact hskipped (congrArg World.db hsame)
    have htransacted : Transacted c.env u.team w₀.db w₁ :=
      hsubmit ▸ (submit_transacts c.env u.toUpload).state rfl
    rcases htransacted with hsame | ⟨t, hcommitted⟩
    · exact hskipped hsame
    refine ⟨(c, u.team) :: committed, hsublist.cons_cons c, fun p hp ↦ ?_, fun threads ↦ ?_⟩
    · rcases List.mem_cons.mp hp with rfl | hp
      · exact ⟨u, hu, rfl⟩
      · exact haccepted p hp
    · refine exec_transactions_cons hcommitted ?_
      have hlater := hexec (threads ++ [.done none])
      rw [List.length_append, List.append_assoc] at hlater
      exact hlater

/-- The first upload is thrown out of its course when it has been committed, and the second one has
the id of the first. -/
def thrownCalls : List Posted :=
  [{ sampleCall "exchange" staticBinary with env := untriggered },
    sampleCall "exchange" staticBinary]

theorem uploads_simulated_thrownCalls : ∃ w,
    exec (World.post 524288000) demoWorld thrownCalls = some w ∧
    w.db.submissions.length = 1 ∧ w.builds = [] ∧
    Simulated 524288000 demoWorld thrownCalls w := by
  have hrun : ((exec (World.post 524288000) demoWorld thrownCalls).any fun w ↦
      decide (w.db.submissions.length = 1 ∧ w.builds = [])) = true := by
    decide +kernel
  obtain ⟨w, hexec, hw⟩ := (Option.any_eq_true _ _).mp hrun
  obtain ⟨hrows, hbuilds⟩ := of_decide_eq_true hw
  exact ⟨w, hexec, hrows, hbuilds, uploads_simulated 524288000 hexec⟩

end BenchmarkPlatform.Uploads
