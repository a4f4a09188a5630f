import Mathlib.Data.Finset.Insert
import BenchmarkPlatform.Submissions.Server

/-!
# Teams on the leaderboard

Three services touch the name of a team. POST submit stores a submission for a team, which it
creates if there is none; a status poll or a round of the finalizer that finds the run completed
sends the name to the scoring engine; `FinalizeRun` writes it to Redis, into the sorted set
`leaderboard` and then into the hash `scores:` of the team. DELETE removes the rows in one
transaction, and then the entry of the sorted set and the hash.

A step is one transaction, one query, one Redis command, or the way of a message. A handler that
sends a request goes on as that request, since nothing else of it matters here. Other handlers
appear only as writers of a status. A row is looked up by the text of its id.
-/

namespace BenchmarkPlatform.Teams

open Lib

/-! ## Data -/

structure Team where
  id : String
  name : String
  apiKey : String
  deriving DecidableEq

structure Submission where
  id : String
  teamId : String
  status : String
  deriving DecidableEq

/-- What `drogon::utils::getUuid` returns. -/
abbrev Uuid := {id : String // id.length = 36}

structure Shared where
  teams : List Team
  submissions : List Submission
  leaderboard : Finset String
  /-- The teams that have a `scores:` hash. -/
  scores : Finset String

/-- What a step reads from outside. -/
structure Env where
  /-- The database throws. -/
  dbError : Bool
  /-- Redis throws. -/
  redisError : Bool
  /-- The finalize request arrives at a scoring engine that knows the run and has Redis. -/
  served : Bool
  /-- The status in the reply of the orchestrator, if there is a reply with a status. -/
  report : Option String
  submissionId : Uuid
  /-- The id and the key of a team that is created. -/
  teamId : String
  apiKey : String

/-! ## Queries -/

/-- `SELECT … FROM submissions WHERE id`. -/
def Shared.row (s : Shared) (id : String) : Option Submission :=
  s.submissions.find? fun row ↦ row.id = id

/-- The name of the team of a row, by the join with `teams`. -/
def Shared.teamName (s : Shared) (row : Submission) : Option String :=
  (s.teams.find? fun t ↦ t.id = row.teamId).map Team.name

/-- `UPDATE submissions SET status WHERE …`. -/
def Shared.update (s : Shared) (p : Submission → Bool) (status : String) : Shared :=
  { s with submissions := s.submissions.map fun row ↦
      bif p row then { row with status := status } else row }

def Shared.setStatus (s : Shared) (id status : String) : Shared :=
  s.update (fun row ↦ row.id = id) status

def Shared.setStatusIfTesting (s : Shared) (id status : String) : Shared :=
  s.update (fun row ↦ row.id = id && row.status = "testing") status

/-- The two DELETEs of a team. -/
def Shared.deleteTeam (s : Shared) (teamId : String) : Shared :=
  { s with
    submissions := s.submissions.filter fun row ↦ row.teamId ≠ teamId
    teams := s.teams.filter fun t ↦ t.id ≠ teamId }

/-- The regular expression `^[a-zA-Z0-9-]+$` and the bounds on the length. -/
def ValidName (name : String) : Prop :=
  3 ≤ name.length ∧ name.length ≤ 32 ∧ ∀ c ∈ name.toList, c.isAlphanum ∨ c = '-'

instance : DecidablePred ValidName := fun name ↦
  have : Decidable (∀ c ∈ name.toList, c.isAlphanum ∨ c = '-') := List.decidableBAll _ _
  inferInstanceAs (Decidable (_ ∧ _ ∧ _))

def isHex (c : Char) : Bool := c.isDigit || ('a' ≤ c && c ≤ 'f') || ('A' ≤ c && c ≤ 'F')

/-- The regular expression for a UUID: groups of 8, 4, 4, 4 and 12 hexadecimal digits. -/
def LooksLikeUuid (input : String) : Prop :=
  input.toList.map (fun c ↦ if isHex c then '0' else c) =
    "00000000-0000-0000-0000-000000000000".toList

instance : DecidablePred LooksLikeUuid := fun _ ↦ inferInstanceAs (Decidable (_ = _))

/-- The first two parts of `resolveTeamUuid`: by id, then by name or key. -/
def Shared.findTeam (s : Shared) (input : String) : Option Team :=
  (if LooksLikeUuid input then s.teams.find? fun t ↦ t.id = input else none) <|>
    s.teams.find? fun t ↦ t.name = input ∨ t.apiKey = input

theorem Shared.findTeam_mem {s : Shared} {input : String} {t : Team}
    (h : s.findTeam input = some t) : t ∈ s.teams := by
  rw [findTeam] at h
  cases hid : if LooksLikeUuid input then s.teams.find? fun t ↦ t.id = input else none with
  | none =>
    rw [hid] at h
    exact List.mem_of_find?_eq_some h
  | some u =>
    rw [hid] at h
    obtain rfl := Option.some_inj.mp h
    split_ifs at hid
    exact List.mem_of_find?_eq_some hid

/-- Where no team is found, the name is free. -/
theorem Shared.name_ne_of_findTeam_eq_none {s : Shared} {input : String}
    (h : s.findTeam input = none) {t : Team} (ht : t ∈ s.teams) : t.name ≠ input := by
  rw [findTeam] at h
  cases hid : if LooksLikeUuid input then s.teams.find? fun t ↦ t.id = input else none with
  | none =>
    rw [hid] at h
    intro hname
    have hnot := List.find?_eq_none.mp h t ht
    simp [hname] at hnot
  | some u =>
    rw [hid] at h
    cases h

/-- An INSERT INTO `teams` that breaks no uniqueness. -/
def Shared.insertTeam (s : Shared) (t : Team) : Option Shared :=
  if ∃ u ∈ s.teams, u.id = t.id ∨ u.name = t.name ∨ u.apiKey = t.apiKey then none
  else some { s with teams := s.teams ++ [t] }

/-- `resolveTeamUuid`, with the team it is the id of; `none` if it returns `""` or throws. -/
def Shared.resolveTeam (s : Shared) (env : Env) (input : String) : Option (Shared × Team) :=
  if input = "" then none
  else
    match s.findTeam input with
    | some t => some (s, t)
    | none =>
      if ValidName input then
        (s.insertTeam ⟨env.teamId, input, env.apiKey⟩).map (·, ⟨env.teamId, input, env.apiKey⟩)
      else none

/-- The transaction of POST submit, with the team the submission is for; `none` if it does not
commit. -/
def Shared.submit (s : Shared) (env : Env) (input : String) : Option (Shared × Team) :=
  match s.resolveTeam env input with
  | none => none
  | some (s, t) =>
    if env.dbError ∨ (s.row env.submissionId).isSome then none
    else some ({ s with submissions := s.submissions ++ [⟨env.submissionId, t.id, "pending"⟩] }, t)

/-! ## The threads -/

inductive Pc where
  /-- POST submit: the transaction comes next. -/
  | submit (team : String)
  /-- Another handler writes the status of a submission. -/
  | setStatus (id status : String)
  /-- GET status: the row is read next. -/
  | pollRead (id : String)
  | pollAsked (id : String)
  | pollReply (id : String) (report : Option String)
  /-- The row is set to `complete`; the team is read and the finalize request sent next. -/
  | pollTeam (id : String)
  /-- A round of the finalizer comes to a submission: the row and its team are read next. -/
  | finalizerRead (id : String)
  | finalizerAsked (id teamName : String)
  | finalizerReply (id teamName : String) (report : Option String)
  | finalizerSend (id teamName : String)
  /-- A finalize request on its way to the scoring engine. -/
  | request (id teamName : String)
  /-- `FinalizeRun`: the two commands of its pipeline. -/
  | zadd (teamId : String)
  | hmset (teamId : String)
  /-- DELETE: the team is looked up next. -/
  | delete (name : String)
  | deleteRows (name teamId : String)
  | zrem (name : String) (inDb : Bool)
  | del (name : String) (inDb removed : Bool)
  /-- A DELETE answers with a status code. -/
  | done (code : Option ℕ)
  deriving DecidableEq

inductive Call where
  | submit (team : String)
  | setStatus (id status : String)
  | poll (id : String)
  | finalizer (id : String)
  | deleteTeam (name : String)

def Call.entry : Call → Pc
  | .submit team => .submit team
  | .setStatus id status => .setStatus id status
  | .poll id => .pollRead id
  | .finalizer id => .finalizerRead id
  | .deleteTeam name => .delete name

/-- A step that uses the database. -/
def Env.database (env : Env) (s : Shared) (r : Shared × Pc) : Shared × Pc :=
  if env.dbError then (s, .done none) else r

/-- The answer of DELETE. -/
def deleted (inDb inRedis : Bool) : Pc := .done (some (if inDb || inRedis then 200 else 404))

/-- The next step of a thread. -/
def advance (s : Shared) (env : Env) : Pc → Option (Shared × Pc)
  | .submit team => some (((s.submit env team).map Prod.fst).getD s, .done none)
  | .setStatus id status => some (env.database s (s.setStatus id status, .done none))
  | .pollRead id =>
    some (env.database s (s, match s.row id with
      | none => .done none
      | some row => if row.status = "testing" then .pollAsked id else .done none))
  | .pollAsked id => some (s, .pollReply id env.report)
  | .pollReply id report =>
    if Submissions.newStatus (report.getD "") = "" then some (s, .done none)
    else
      some (env.database s (s.setStatus id (Submissions.newStatus (report.getD "")),
        if Submissions.newStatus (report.getD "") = "complete" then .pollTeam id else .done none))
  | .pollTeam id =>
    some (env.database s (s, .request id (((s.row id).bind s.teamName).getD id)))
  | .finalizerRead id =>
    some (env.database s (s, match s.row id with
      | none => .done none
      | some row =>
        match s.teamName row with
        | none => .done none
        | some name => if row.status = "testing" then .finalizerAsked id name else .done none))
  | .finalizerAsked id name => some (s, .finalizerReply id name env.report)
  | .finalizerReply id name report =>
    match Submissions.endStatus (report.getD "") with
    | none => some (s, .done none)
    | some status =>
      some (env.database s (s.setStatusIfTesting id status,
        if status = "complete" then .finalizerSend id name else .done none))
  | .finalizerSend id name => some (s, .request id name)
  | .request _ name => some (s, if env.served ∧ name ≠ "" then .zadd name else .done none)
  | .zadd name =>
    some (if env.redisError then (s, .done none)
      else ({ s with leaderboard := insert name s.leaderboard }, .hmset name))
  | .hmset name =>
    some (if env.redisError then s else { s with scores := insert name s.scores }, .done none)
  | .delete name =>
    some (if env.dbError then (s, .done (some 500))
      else (s, match s.teams.find? fun t ↦ t.name = name with
        | none => .zrem name false
        | some t => .deleteRows name t.id))
  | .deleteRows name teamId =>
    some (if env.dbError then (s, .done (some 500)) else (s.deleteTeam teamId, .zrem name true))
  | .zrem name inDb =>
    some (if env.redisError then (s, deleted inDb false)
      else ({ s with leaderboard := s.leaderboard.erase name },
        .del name inDb (decide (name ∈ s.leaderboard))))
  | .del name inDb removed =>
    some (if env.redisError then (s, deleted inDb false)
      else ({ s with scores := s.scores.erase name }, deleted inDb removed))
  | .done _ => none

/-! ## The system -/

abbrev State := Pool Shared Pc

abbrev Event := PoolEvent Call Env

/-- A handler is called, or a thread takes its next step. -/
abbrev step (s : State) : Event → Option State := s.next Call.entry advance

def State.initial : State := ⟨⟨[], [], ∅, ∅⟩, []⟩

end BenchmarkPlatform.Teams
