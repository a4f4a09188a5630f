import BenchmarkPlatform.Lib.Exception
import BenchmarkPlatform.Submissions.Teams

/-!
# Uploads

POST submit, after validation: the archive goes to the object storage, the submission to the
database, and a request to the sandbox manager. What throws before the transaction is committed is
followed by the deletion of the archive. So is what throws afterwards, when the submission is there
to stay.

An exception leaves the changes made before it, except those of a transaction, which is rolled back.
A team id is a UUID, so that no team has an empty one.
-/

namespace BenchmarkPlatform.Uploads

open Lib
open Teams (Team Uuid ValidName)

/-! ## The stores -/

structure Row where
  id : String
  teamId : String
  language : String
  status : String
  email : String
  fileHash : String
  fileSize : ℕ
  sourceUrl : String
  deriving DecidableEq

structure Database where
  teams : List Team
  submissions : List Row
  id_ne : ∀ t ∈ teams, t.id ≠ ""

/-- The columns that the leaderboard depends on. -/
def Database.shared (d : Database) : Teams.Shared :=
  ⟨d.teams, d.submissions.map fun row ↦ ⟨row.id, row.teamId, row.status⟩, ∅, ∅⟩

/-- An INSERT INTO `teams` that breaks no uniqueness. -/
def Database.insertTeam (d : Database) (id : Uuid) (name apiKey : String) : Option Database :=
  if ∃ t ∈ d.teams, t.id = id ∨ t.name = name ∨ t.apiKey = apiKey then none
  else some
    { d with
      teams := d.teams ++ [⟨id, name, apiKey⟩]
      id_ne := by
        intro t ht
        rcases List.mem_append.mp ht with ht | ht
        · exact d.id_ne t ht
        · rw [List.mem_singleton.mp ht]
          exact fun h ↦ absurd id.2 (by simp [show (id : String) = "" from h]) }

structure BuildRequest where
  submissionId : String
  language : String
  sourceUrl : String
  deriving DecidableEq

structure World where
  /-- The bucket, by object key. -/
  objects : Finmap fun _ : String ↦ List UInt8
  db : Database
  activeSubmissions : Finset String
  /-- The requests sent to the sandbox manager. -/
  builds : List BuildRequest

/-! ## The handler -/

/-- Where the handler can be thrown out of its course, in this order. -/
inductive Stage
  | upload
  | acquire
  | resolve
  | insert
  | commit
  | trigger
  | convert
  | respond
  deriving DecidableEq, Repr

/-- What the handler reads from outside. -/
structure Env where
  /-- What is thrown at a stage. -/
  throws : Stage → Option String
  /-- An upload that throws has stored the object nevertheless. -/
  stored : Bool
  redisError : Bool
  /-- What the database says of a row that breaks a uniqueness. -/
  duplicateKey : String
  bucket : String
  submissionId : Uuid
  teamId : Uuid
  apiKeyId : Uuid
  md5 : List UInt8 → String

/-- An upload that has passed validation. -/
structure Upload where
  team : String
  email : String
  language : String
  content : List UInt8
  validName_team : ValidName team

inductive Response
  | success (submissionId status : String)
  | error (code : ℕ) (message : String)
  deriving DecidableEq, Repr

/-- Code that may throw; what it has done by then stays done. -/
abbrev Handler := ExceptT String (StateM World)

def Env.reach (env : Env) (stage : Stage) : Handler Unit :=
  match env.throws stage with
  | some what => throw what
  | none => pure ()

def objectKey (submissionId : String) : String := submissionId ++ "/source.tar.gz"

def World.put (w : World) (key : String) (content : List UInt8) : World :=
  { w with objects := w.objects.insert key content }

def World.delete (w : World) (key : String) : World :=
  { w with objects := w.objects.erase key }

def uploadSubmission (env : Env) (submissionId : String) (content : List UInt8) : Handler String :=
  match env.throws .upload with
  | some what => do
    if env.stored then modify (·.put (objectKey submissionId) content)
    throw what
  | none => do
    modify (·.put (objectKey submissionId) content)
    return objectKey submissionId

def Env.submissionUrl (env : Env) (submissionId : String) : String :=
  "http://localhost:9000/" ++ env.bucket ++ "/" ++ submissionId ++ "/source.tar.gz"

def deleteSubmission (submissionId : String) : Handler Unit :=
  modify (·.delete (objectKey submissionId))

def resolveTeamUuid (env : Env) (db : Database) (input : String) (createIfNotFound : Bool) :
    Handler (Database × String) := do
  if input = "" then return (db, "")
  env.reach .resolve
  match db.shared.findTeam input with
  | some t => return (db, t.id)
  | none =>
    if createIfNotFound ∧ ValidName input then
      match db.insertTeam env.teamId input ("api-key-" ++ env.apiKeyId) with
      | some db => return (db, env.teamId)
      | none => throw env.duplicateKey
    else return (db, "")

/-- `INSERT INTO submissions` -/
def insertSubmission (env : Env) (db : Database) (row : Row) : Handler Database := do
  env.reach .insert
  if ∃ row' ∈ db.submissions, row'.id = row.id then throw env.duplicateKey
  return { db with submissions := db.submissions ++ [row] }

def Upload.row (u : Upload) (env : Env) (teamId sourceUrl : String) : Row where
  id := env.submissionId
  teamId := teamId
  language := u.language
  status := "pending"
  email := u.email
  fileHash := env.md5 u.content
  fileSize := u.content.length
  sourceUrl := sourceUrl

/-- The inner `try`: the URL of the archive. -/
def uploadSource (env : Env) (u : Upload) : Handler String := do
  let _ ← uploadSubmission env env.submissionId u.content
  return env.submissionUrl env.submissionId

/-- `SADD active_submissions`; what it throws is caught. -/
def addActive (env : Env) : Handler Unit :=
  if env.redisError then pure ()
  else modify fun w ↦
    { w with activeSubmissions := insert ↑env.submissionId w.activeSubmissions }

/-- What follows the commit. The row is converted at the end, and not used. -/
def announce (env : Env) (u : Upload) (sourceUrl : String) : Handler Response := do
  env.reach .trigger
  modify fun w ↦ { w with builds := w.builds ++ [⟨env.submissionId, u.language, sourceUrl⟩] }
  addActive env
  env.reach .convert
  env.reach .respond
  return .success env.submissionId "pending"

/-- What follows the inner `try`. -/
def storeSubmission (env : Env) (u : Upload) (sourceUrl : String) : Handler Response := do
  env.reach .acquire
  let (db, teamId) ← resolveTeamUuid env (← get).db u.team true
  if teamId = "" then return .error 400 "Team not found and could not be created."
  let db ← insertSubmission env db (u.row env teamId sourceUrl)
  env.reach .commit
  modify fun w ↦ { w with db := db }
  announce env u sourceUrl

/-- The outer `try`. -/
def tryBlock (env : Env) (u : Upload) : Handler Response := do
  match ← observing (uploadSource env u) with
  | .error what => return .error 500 ("uploading submission archive: " ++ what)
  | .ok sourceUrl => storeSubmission env u sourceUrl

/-- POST submit, from the upload on. -/
def submit (env : Env) (u : Upload) : Handler Response :=
  tryCatch (tryBlock env u) fun what ↦ do
    deleteSubmission env.submissionId
    return .error 500 ("internal server error: " ++ what)

/-! ## Atomicity -/

def World.HasRow (w : World) (submissionId : String) : Prop :=
  ∃ row ∈ w.db.submissions, row.id = submissionId

def World.HasObject (w : World) (submissionId : String) : Prop :=
  objectKey submissionId ∈ w.objects

/-- Behind an answer of success both the row and the archive are there, and otherwise neither. What
the handler throws is answered with an error. -/
def Atomic (submissionId : String) : Except String Response × World → Prop
  | (.ok (.success _ _), w) => w.HasRow submissionId ∧ w.HasObject submissionId
  | (.ok (.error _ _), w) => ¬ w.HasRow submissionId ∧ ¬ w.HasObject submissionId
  | (.error _, w) => ¬ w.HasRow submissionId ∧ ¬ w.HasObject submissionId

/-- What is made up for the upload is not in use. -/
structure Env.Fresh (env : Env) (w : World) : Prop where
  row : ¬ w.HasRow env.submissionId
  object : ¬ w.HasObject env.submissionId
  team : ∀ t ∈ w.db.teams, t.id ≠ env.teamId ∧ t.apiKey ≠ "api-key-" ++ env.apiKeyId

def Env.Fails (env : Env) (stage : Stage) : Prop := (env.throws stage).isSome

def Stage.toCommit : List Stage := [.acquire, .resolve, .insert, .commit]

def Stage.afterCommit : List Stage := [.trigger, .convert, .respond]

/-- An upload that throws has stored nothing, and nothing throws once the submission is there. -/
def Env.Compensated (env : Env) : Prop :=
  (env.Fails .upload → env.stored = false) ∧
    ((∃ stage ∈ Stage.afterCommit, env.Fails stage) →
      ∃ stage ∈ .upload :: Stage.toCommit, env.Fails stage)

/-! ## What each stage does -/

variable {env : Env} {u : Upload} {w : World} {what : String}

theorem outcome_reach_of_some {stage : Stage} (h : env.throws stage = some what) (w : World) :
    outcome (env.reach stage) w = (.error what, w) := by
  rw [Env.reach, h]
  exact outcome_throw what w

theorem outcome_reach_of_none {stage : Stage} (h : env.throws stage = none) (w : World) :
    outcome (env.reach stage) w = (.ok ⟨⟩, w) := by
  rw [Env.reach, h]
  exact outcome_pure _ w

theorem Upload.team_ne (u : Upload) : u.team ≠ "" := by
  intro h
  have hlength := u.validName_team.1
  rw [h] at hlength
  exact absurd hlength (by decide)

/-- A valid name is resolved, by a team that is there or a new one. -/
theorem outcome_resolveTeamUuid (u : Upload) (h : env.Fresh w)
    (hthrows : env.throws .resolve = none) (w' : World) : ∃ db teamId,
      outcome (resolveTeamUuid env w.db u.team true) w' = (.ok (db, teamId), w') ∧ teamId ≠ "" ∧
        db.submissions = w.db.submissions := by
  rw [resolveTeamUuid, if_neg u.team_ne, outcome_bind_of_ok (outcome_reach_of_none hthrows w')]
  cases hfind : w.db.shared.findTeam u.team with
  | some t =>
    have hmem : t ∈ w.db.teams := Teams.Shared.findTeam_mem hfind
    exact ⟨w.db, t.id, rfl, w.db.id_ne t hmem, rfl⟩
  | none =>
    have hunused : ¬ ∃ t ∈ w.db.teams, t.id = env.teamId ∨ t.name = u.team ∨
        t.apiKey = "api-key-" ++ env.apiKeyId := by
      rintro ⟨t, ht, hid | hname | hkey⟩
      · exact (h.team t ht).1 hid
      · exact Teams.Shared.name_ne_of_findTeam_eq_none hfind ht hname
      · exact (h.team t ht).2 hkey
    have hid : (env.teamId : String) ≠ "" := by
      intro hempty
      exact absurd env.teamId.2 (by simp [hempty])
    dsimp only
    rw [if_pos ⟨rfl, u.validName_team⟩, Database.insertTeam, if_neg hunused]
    exact ⟨_, env.teamId, rfl, hid, rfl⟩

theorem outcome_insertSubmission (row : Row) {db : Database} (hthrows : env.throws .insert = none)
    (hrow : ¬ ∃ row' ∈ db.submissions, row'.id = row.id) (w : World) :
    outcome (insertSubmission env db row) w
      = (.ok { db with submissions := db.submissions ++ [row] }, w) := by
  rw [insertSubmission, outcome_bind_of_ok (outcome_reach_of_none hthrows w), if_neg hrow]
  exact outcome_pure _ w

/-- Whether redis is there or not, the handler goes on. -/
theorem outcome_addActive (env : Env) (w : World) : ∃ w',
    outcome (addActive env) w = (.ok ⟨⟩, w') ∧ w'.objects = w.objects ∧ w'.db = w.db := by
  rw [addActive]
  split_ifs
  · exact ⟨w, outcome_pure _ w, rfl, rfl⟩
  · exact ⟨_, outcome_modify _ w, rfl, rfl⟩

/-- What follows the commit leaves both stores as they are. -/
theorem outcome_announce (env : Env) (u : Upload) (sourceUrl : String) (w : World) :
    ∃ result w', outcome (announce env u sourceUrl) w = (result, w') ∧ w'.objects = w.objects ∧
      w'.db = w.db ∧
      ((∃ stage ∈ Stage.afterCommit, env.Fails stage) → ∃ what, result = .error what) ∧
      ((¬ ∃ stage ∈ Stage.afterCommit, env.Fails stage) →
        result = .ok (.success env.submissionId "pending")) := by
  have hlate : ∀ {stage what}, stage ∈ Stage.afterCommit → env.throws stage = some what →
      ∃ stage ∈ Stage.afterCommit, env.Fails stage := by
    intro stage what hstage hthrows
    exact ⟨stage, hstage, by rw [Env.Fails, hthrows]; rfl⟩
  cases htrigger : env.throws .trigger with
  | some what =>
    exact ⟨_, w, outcome_bind_of_error (outcome_reach_of_some htrigger w) _, rfl, rfl,
      fun _ ↦ ⟨what, rfl⟩, fun hnone ↦ absurd (hlate (by decide) htrigger) hnone⟩
  | none =>
    obtain ⟨w', hadd, hobjects, hdb⟩ := outcome_addActive env
      { w with builds := w.builds ++ [⟨env.submissionId, u.language, sourceUrl⟩] }
    rw [announce, outcome_bind_of_ok (outcome_reach_of_none htrigger w),
      outcome_bind_of_ok (outcome_modify _ w), outcome_bind_of_ok hadd]
    cases hconvert : env.throws .convert with
    | some what =>
      exact ⟨_, w', outcome_bind_of_error (outcome_reach_of_some hconvert w') _, hobjects, hdb,
        fun _ ↦ ⟨what, rfl⟩, fun hnone ↦ absurd (hlate (by decide) hconvert) hnone⟩
    | none =>
      rw [outcome_bind_of_ok (outcome_reach_of_none hconvert w')]
      cases hrespond : env.throws .respond with
      | some what =>
        exact ⟨_, w', outcome_bind_of_error (outcome_reach_of_some hrespond w') _, hobjects, hdb,
          fun _ ↦ ⟨what, rfl⟩, fun hnone ↦ absurd (hlate (by decide) hrespond) hnone⟩
      | none =>
        rw [outcome_bind_of_ok (outcome_reach_of_none hrespond w')]
        refine ⟨_, w', rfl, hobjects, hdb, fun hsome ↦ ?_, fun _ ↦ rfl⟩
        simp [Stage.afterCommit, Env.Fails, htrigger, hconvert, hrespond] at hsome

/-! ## What the outer `try` block does -/

section

variable (u) (w' : World) (h : env.Fresh w) (hdb : w'.db = w.db) (sourceUrl : String)
include h hdb

/-- What throws up to the commit leaves the stores as they are. -/
theorem storeSubmission_throws (hfails : ∃ stage ∈ Stage.toCommit, env.Fails stage) :
    ∃ what, outcome (storeSubmission env u sourceUrl) w' = (.error what, w') := by
  cases hacquire : env.throws .acquire with
  | some what => exact ⟨what, outcome_bind_of_error (outcome_reach_of_some hacquire w') _⟩
  | none =>
    cases hresolve : env.throws .resolve with
    | some what =>
      refine ⟨what, ?_⟩
      rw [storeSubmission, outcome_bind_of_ok (outcome_reach_of_none hacquire w'),
        outcome_bind_of_ok (outcome_get w')]
      refine outcome_bind_of_error ?_ _
      rw [resolveTeamUuid, if_neg u.team_ne]
      exact outcome_bind_of_error (outcome_reach_of_some hresolve w') _
    | none =>
      obtain ⟨db, teamId, hteam, hid, hsubmissions⟩ := outcome_resolveTeamUuid u h hresolve w'
      rw [storeSubmission, outcome_bind_of_ok (outcome_reach_of_none hacquire w'),
        outcome_bind_of_ok (outcome_get w'), hdb, outcome_bind_of_ok hteam]
      dsimp only
      rw [if_neg hid]
      cases hinsert : env.throws .insert with
      | some what =>
        refine ⟨what, outcome_bind_of_error ?_ _⟩
        rw [insertSubmission]
        exact outcome_bind_of_error (outcome_reach_of_some hinsert w') _
      | none =>
        have hrow : ¬ ∃ row' ∈ db.submissions, row'.id = (u.row env teamId sourceUrl).id :=
          hsubmissions ▸ h.row
        rw [outcome_bind_of_ok (outcome_insertSubmission _ hinsert hrow w')]
        cases hcommit : env.throws .commit with
        | some what => exact ⟨what, outcome_bind_of_error (outcome_reach_of_some hcommit w') _⟩
        | none => simp [Stage.toCommit, Env.Fails, hacquire, hresolve, hinsert, hcommit] at hfails

/-- Otherwise the submission is stored, whatever comes after. -/
theorem storeSubmission_commits (hcommits : ¬ ∃ stage ∈ Stage.toCommit, env.Fails stage) :
    ∃ result w'', outcome (storeSubmission env u sourceUrl) w' = (result, w'') ∧
      w''.objects = w'.objects ∧ w''.HasRow env.submissionId ∧
      ((∃ stage ∈ Stage.afterCommit, env.Fails stage) → ∃ what, result = .error what) ∧
      ((¬ ∃ stage ∈ Stage.afterCommit, env.Fails stage) →
        result = .ok (.success env.submissionId "pending")) := by
  have hnone : ∀ stage ∈ Stage.toCommit, env.throws stage = none := by
    intro stage hstage
    by_contra hsome
    exact hcommits ⟨stage, hstage, Option.isSome_iff_ne_none.mpr hsome⟩
  obtain ⟨db, teamId, hteam, hid, hsubmissions⟩ :=
    outcome_resolveTeamUuid u h (hnone .resolve (by decide)) w'
  have hrow : ¬ ∃ row' ∈ db.submissions, row'.id = (u.row env teamId sourceUrl).id :=
    hsubmissions ▸ h.row
  rw [storeSubmission, outcome_bind_of_ok (outcome_reach_of_none (hnone .acquire (by decide)) w'),
    outcome_bind_of_ok (outcome_get w'), hdb, outcome_bind_of_ok hteam]
  dsimp only
  rw [if_neg hid,
    outcome_bind_of_ok (outcome_insertSubmission _ (hnone .insert (by decide)) hrow w'),
    outcome_bind_of_ok (outcome_reach_of_none (hnone .commit (by decide)) w'),
    outcome_bind_of_ok (outcome_modify _ w')]
  obtain ⟨result, w'', hannounce, hobjects, hdb', hlate⟩ := outcome_announce env u sourceUrl
    { w' with db := { db with submissions := db.submissions ++ [u.row env teamId sourceUrl] } }
  refine ⟨result, w'', hannounce, hobjects, ?_, hlate⟩
  rw [World.HasRow, hdb']
  exact ⟨_, List.mem_append_right _ List.mem_cons_self, rfl⟩

end

/-! ## When uploads are atomic -/

theorem outcome_uploadSource_of_some (u : Upload) (h : env.throws .upload = some what) (w : World) :
    outcome (uploadSource env u) w = (.error what,
      if env.stored then w.put (objectKey env.submissionId) u.content else w) := by
  refine outcome_bind_of_error ?_ _
  rw [uploadSubmission, h]
  dsimp only
  split_ifs with hstored
  · rfl
  · rfl

theorem outcome_uploadSource_of_none (u : Upload) (h : env.throws .upload = none) (w : World) :
    outcome (uploadSource env u) w = (.ok (env.submissionUrl env.submissionId),
      w.put (objectKey env.submissionId) u.content) := by
  rw [uploadSource, uploadSubmission, h]
  rfl

/-- An upload that throws is answered at once. -/
theorem outcome_submit_of_upload (u : Upload) (h : env.throws .upload = some what) (w : World) :
    outcome (submit env u) w = (.ok (.error 500 ("uploading submission archive: " ++ what)),
      if env.stored then w.put (objectKey env.submissionId) u.content else w) := by
  rw [submit, outcome_tryCatch, tryBlock, outcome_bind, outcome_observing,
    outcome_uploadSource_of_some u h]
  rfl

/-- Behind the upload an answer is passed on, and what is thrown is answered when the archive has
been deleted. -/
theorem outcome_submit_of_none (u : Upload) (h : env.throws .upload = none) (w : World) :
    outcome (submit env u) w =
      match outcome (storeSubmission env u (env.submissionUrl env.submissionId))
        (w.put (objectKey env.submissionId) u.content) with
      | (.ok response, w') => (.ok response, w')
      | (.error what, w') => (.ok (.error 500 ("internal server error: " ++ what)),
          w'.delete (objectKey env.submissionId)) := by
  rw [submit, outcome_tryCatch, tryBlock, outcome_bind, outcome_observing,
    outcome_uploadSource_of_none u h]
  dsimp only
  rcases outcome (storeSubmission env u (env.submissionUrl env.submissionId))
    (w.put (objectKey env.submissionId) u.content) with ⟨what | response, w'⟩
  · rfl
  · rfl

/-- How an upload ends: in the upload of the archive, before the submission is stored, or after. -/
theorem submit_cases (u : Upload) (h : env.Fresh w) :
    (∃ what, env.throws .upload = some what ∧ outcome (submit env u) w =
      (.ok (.error 500 ("uploading submission archive: " ++ what)),
        if env.stored then w.put (objectKey env.submissionId) u.content else w)) ∨
    ¬ env.Fails .upload ∧ ((∃ stage ∈ Stage.toCommit, env.Fails stage) ∧
      (∃ message, outcome (submit env u) w = (.ok (.error 500 message),
        (w.put (objectKey env.submissionId) u.content).delete (objectKey env.submissionId))) ∨
    (¬ ∃ stage ∈ Stage.toCommit, env.Fails stage) ∧ ∃ w', w'.HasRow env.submissionId ∧
      w'.HasObject env.submissionId ∧
      ((∃ stage ∈ Stage.afterCommit, env.Fails stage) → ∃ message, outcome (submit env u) w =
        (.ok (.error 500 message), w'.delete (objectKey env.submissionId))) ∧
      ((¬ ∃ stage ∈ Stage.afterCommit, env.Fails stage) → outcome (submit env u) w =
        (.ok (.success env.submissionId "pending"), w'))) := by
  cases hupload : env.throws .upload with
  | some what => exact .inl ⟨what, rfl, outcome_submit_of_upload u hupload w⟩
  | none =>
    have hno : ¬ env.Fails .upload := by simp [Env.Fails, hupload]
    have hdb : (w.put (objectKey env.submissionId) u.content).db = w.db := rfl
    refine .inr ⟨hno, ?_⟩
    by_cases hearly : ∃ stage ∈ Stage.toCommit, env.Fails stage
    · obtain ⟨what, hthrows⟩ := storeSubmission_throws u _ h hdb _ hearly
      refine .inl ⟨hearly, "internal server error: " ++ what, ?_⟩
      rw [outcome_submit_of_none u hupload, hthrows]
    · obtain ⟨result, w', hresult, hobjects, hrow, hthrows, hreturns⟩ :=
        storeSubmission_commits u _ h hdb (env.submissionUrl env.submissionId) hearly
      refine .inr ⟨hearly, w', hrow, ?_, fun hlate ↦ ?_, fun hlate ↦ ?_⟩
      · rw [World.HasObject, hobjects]
        exact Finmap.mem_insert.mpr (.inl rfl)
      · obtain ⟨what, rfl⟩ := hthrows hlate
        refine ⟨"internal server error: " ++ what, ?_⟩
        rw [outcome_submit_of_none u hupload, hresult]
      · obtain rfl := hreturns hlate
        rw [outcome_submit_of_none u hupload, hresult]

/-- **When uploads are atomic.** Just when an upload that throws has stored nothing, and nothing is
thrown behind the commit. -/
theorem submit_atomic_iff (env : Env) (u : Upload) {w : World} (h : env.Fresh w) :
    Atomic env.submissionId (outcome (submit env u) w) ↔ env.Compensated := by
  rcases submit_cases u h with ⟨what, hupload, houtcome⟩ |
    ⟨hupload, ⟨hearly, message, houtcome⟩ | ⟨hearly, w', hrow, hobject, hthrows, hreturns⟩⟩
  · have hfails : env.Fails .upload := by
      rw [Env.Fails, hupload]
      rfl
    rw [houtcome]
    by_cases hstored : env.stored = true
    · rw [if_pos hstored]
      refine iff_of_false (fun hatomic ↦ hatomic.2 ?_) fun hcompensated ↦ ?_
      · exact Finmap.mem_insert.mpr (.inl rfl)
      · exact absurd (hcompensated.1 hfails) (by simp [hstored])
    · rw [if_neg hstored]
      refine iff_of_true ⟨h.row, h.object⟩ ⟨fun _ ↦ by simpa using hstored, fun _ ↦ ?_⟩
      exact ⟨.upload, List.mem_cons_self, hfails⟩
  · rw [houtcome]
    refine iff_of_true ⟨h.row, ?_⟩ ⟨fun hfails ↦ absurd hfails hupload, fun _ ↦ ?_⟩
    · exact fun hmem ↦ (Finmap.mem_erase.mp hmem).1 rfl
    · obtain ⟨stage, hstage, hfails⟩ := hearly
      exact ⟨stage, List.mem_cons_of_mem _ hstage, hfails⟩
  · by_cases hlate : ∃ stage ∈ Stage.afterCommit, env.Fails stage
    -- the archive is deleted, and the row stays
    · obtain ⟨message, houtcome⟩ := hthrows hlate
      rw [houtcome]
      refine iff_of_false (fun hatomic ↦ hatomic.1 hrow) fun hcompensated ↦ ?_
      obtain ⟨stage, hstage, hfails⟩ := hcompensated.2 hlate
      rcases List.mem_cons.mp hstage with rfl | hstage
      · exact hupload hfails
      · exact hearly ⟨stage, hstage, hfails⟩
    · rw [hreturns hlate]
      refine iff_of_true ⟨hrow, hobject⟩ ⟨fun hfails ↦ absurd hfails hupload, fun hsome ↦ ?_⟩
      exact absurd hsome hlate

def World.empty : World := ⟨∅, ⟨[], [], by simp⟩, ∅, []⟩

/-- An upload whose request to the sandbox manager cannot be made. -/
def untriggered : Env where
  throws
    | .trigger => some "no event loop"
    | _ => none
  stored := false
  redisError := false
  duplicateKey := "duplicate key value violates unique constraint"
  bucket := "submissions"
  submissionId := ⟨"00000000-0000-4000-8000-000000000001", by decide⟩
  teamId := ⟨"00000000-0000-4000-8000-000000000002", by decide⟩
  apiKeyId := ⟨"00000000-0000-4000-8000-000000000003", by decide⟩
  md5 := fun _ ↦ "d41d8cd98f00b204e9800998ecf8427e"

def sampleUpload : Upload where
  team := "team-1"
  email := "team@example.org"
  language := "cpp"
  content := []
  validName_team := by decide

theorem untriggered_fresh : untriggered.Fresh .empty where
  row := by rintro ⟨row, hrow, -⟩; exact absurd hrow List.not_mem_nil
  object := Finmap.notMem_empty
  team t ht := absurd ht List.not_mem_nil

theorem untriggered_atomic_iff :
    Atomic untriggered.submissionId (outcome (submit untriggered sampleUpload) .empty) ↔
      untriggered.Compensated :=
  submit_atomic_iff untriggered sampleUpload untriggered_fresh

/-- The upload is answered with an error, and its row stays. -/
theorem submit_not_atomic : ¬ ∀ (env : Env) (u : Upload) (w : World), env.Fresh w →
    Atomic env.submissionId (outcome (submit env u) w) := by
  intro hatomic
  have herror : (outcome (submit untriggered sampleUpload) .empty).1
      = .ok (.error 500 "internal server error: no event loop") := by rfl
  have hrow : (outcome (submit untriggered sampleUpload) .empty).2.HasRow
      untriggered.submissionId := ⟨_, List.mem_cons_self, rfl⟩
  have h := hatomic untriggered sampleUpload .empty untriggered_fresh
  rw [← Prod.mk.eta (p := outcome (submit untriggered sampleUpload) .empty), herror] at h
  exact h.1 hrow

end BenchmarkPlatform.Uploads
