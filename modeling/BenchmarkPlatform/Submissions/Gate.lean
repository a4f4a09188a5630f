import BenchmarkPlatform.Lib.Transition
import BenchmarkPlatform.Submissions.Validate

/-!
# No way around the checks

Whatever requests come, and wherever the handler is thrown out of its course: what is in the stores
and what is sent to the sandbox manager was brought by requests that passed all checks.

`World.Sound` says so of a world, in terms of the requests so far and of the teams that were there
before the first. The program logic carries it through the handler. It does not hold between the
creation of a team and the insertion of the submission, but these are one transaction.
-/

namespace BenchmarkPlatform.Uploads

open Lib
open Submissions (elfMagic)
open Teams (Team Uuid ValidName)

/-! ## The invariant -/

/-- The request to build a submission. -/
def Row.build (row : Row) : BuildRequest := ⟨row.id, row.language, row.sourceUrl⟩

section Sound

variable (seeded : List Team) (maxUploadSize : ℤ) (came : Posted → Prop)

/-- The team is the one that a form means: by its name, or by the API key of a seeded team. -/
def MeantBy (team : String) (t : Team) : Prop := t.name = team ∨ t ∈ seeded ∧ t.apiKey = team

/-- What the database holds, when it was seeded with some teams and these requests came. -/
structure Database.Sound (d : Database) : Prop where
  /-- A submission is that of an accepted request, and belongs to the team that its form means. -/
  row : ∀ row ∈ d.submissions, ∃ c, came c ∧ ∃ u : Accepted maxUploadSize, c.Accepts u ∧
    ∃ t ∈ d.teams, MeantBy seeded u.team t ∧
      row = u.row c.env t.id (c.env.submissionUrl c.env.submissionId)
  row_id : (d.submissions.map Row.id).Nodup
  kept : ∀ t ∈ seeded, t ∈ d.teams
  /-- A team that has been created has a submission. -/
  team : ∀ t ∈ d.teams, t ∈ seeded ∨ ∃ row ∈ d.submissions, row.teamId = t.id
  team_id : (d.teams.map Team.id).Nodup
  team_name : (d.teams.map Team.name).Nodup
  /-- The API key of a team that has been created cannot be taken for a name. -/
  apiKey : ∀ t ∈ d.teams, t ∈ seeded ∨ ¬ ValidName t.apiKey

/-- What the stores hold, and what the sandbox manager was sent. -/
structure World.Sound (w : World) : Prop where
  db : w.db.Sound seeded maxUploadSize came
  /-- An object is the file of an accepted request. -/
  object : ∀ key content, w.objects.lookup key = some content → ∃ c, came c ∧
    ∃ u : Accepted maxUploadSize, c.Accepts u ∧ key = objectKey c.env.submissionId ∧
      content = u.content
  active : ∀ id ∈ w.activeSubmissions, w.HasRow id
  /-- A build was asked for at most once for a submission, and in the order of the submissions. -/
  builds : w.builds.Sublist (w.db.submissions.map Row.build)

end Sound

variable {seeded : List Team} {maxUploadSize : ℤ} {came : Posted → Prop} {w : World} {c : Posted}
variable {u : Accepted maxUploadSize}

namespace World.Sound

theorem put (h : w.Sound seeded maxUploadSize came) (hcame : came c) (hu : c.Accepts u) :
    (w.put (objectKey c.env.submissionId) u.content).Sound seeded maxUploadSize came := by
  refine ⟨h.db, fun key content hlookup ↦ ?_, h.active, h.builds⟩
  by_cases hkey : key = objectKey c.env.submissionId
  · rw [hkey, World.put, Finmap.lookup_insert] at hlookup
    obtain rfl := Option.some_inj.mp hlookup
    exact ⟨c, hcame, u, hu, hkey, rfl⟩
  · rw [World.put, Finmap.lookup_insert_of_ne _ hkey] at hlookup
    exact h.object key content hlookup

theorem delete (h : w.Sound seeded maxUploadSize came) (key : String) :
    (w.delete key).Sound seeded maxUploadSize came := by
  refine ⟨h.db, fun key' content hlookup ↦ ?_, h.active, h.builds⟩
  by_cases hkey : key' = key
  · rw [hkey, World.delete, Finmap.lookup_erase] at hlookup
    cases hlookup
  · rw [World.delete, Finmap.lookup_erase_ne hkey] at hlookup
    exact h.object key' content hlookup

end World.Sound

/-! ## The team -/

/-- The database in which the team that a form means has been found or created, and its id. -/
structure Database.Resolved (seeded : List Team) (d : Database) (name : String) (d' : Database)
    (teamId : String) : Prop where
  submissions : d'.submissions = d.submissions
  kept : ∀ t ∈ d.teams, t ∈ d'.teams
  found : ∃ t ∈ d'.teams, t.id = teamId ∧ MeantBy seeded name t
  other : ∀ t ∈ d'.teams, t ∈ d.teams ∨ t.id = teamId
  team_id : (d'.teams.map Team.id).Nodup
  team_name : (d'.teams.map Team.name).Nodup
  apiKey : ∀ t ∈ d'.teams, t ∈ seeded ∨ ¬ ValidName t.apiKey

/-- The generated key is too long for a name. -/
theorem not_validName_apiKey (apiKeyId : Uuid) : ¬ ValidName ("api-key-" ++ apiKeyId) := by
  intro hname
  have hlength : ("api-key-" ++ (apiKeyId : String)).length = 44 := by
    rw [String.length_append, apiKeyId.2]
    rfl
  have hle := hname.2.1
  omega

theorem not_looksLikeUuid {name : String} (h : ValidName name) : ¬ Teams.LooksLikeUuid name := by
  intro huuid
  have hlength : name.length = 36 := by
    have h36 := congrArg List.length huuid
    rw [List.length_map, String.length_toList] at h36
    exact h36
  have hle := h.2.1
  omega

theorem nodup_map_concat {α β : Type} {f : α → β} {xs : List α} {x : α} (h : (xs.map f).Nodup)
    (hnew : ∀ y ∈ xs, f y ≠ f x) : ((xs ++ [x]).map f).Nodup := by
  rw [List.map_append, List.nodup_append]
  refine ⟨h, List.nodup_singleton _, fun a ha b hb ↦ ?_⟩
  obtain ⟨y, hy, rfl⟩ := List.mem_map.mp ha
  rw [List.mem_singleton.mp hb]
  exact hnew y hy

/-- A team that is found has the name, or it is a seeded one and has the key. -/
theorem Database.Sound.resolved_of_findTeam {d : Database} (h : d.Sound seeded maxUploadSize came)
    {name : String} (hname : ValidName name) {t : Team} (hfind : d.shared.findTeam name = some t) :
    d.Resolved seeded name d t.id := by
  have hmem : t ∈ d.teams := Teams.Shared.findTeam_mem hfind
  have hmatch : t.name = name ∨ t.apiKey = name := by
    rw [Teams.Shared.findTeam, if_neg (not_looksLikeUuid hname)] at hfind
    simpa using List.find?_some hfind
  refine ⟨rfl, fun _ ht ↦ ht, ⟨t, hmem, rfl, ?_⟩, fun _ ht ↦ .inl ht, h.team_id, h.team_name,
    h.apiKey⟩
  rcases hmatch with hmatch | hkey
  · exact .inl hmatch
  · exact .inr ⟨(h.apiKey t hmem).resolve_right fun hnot ↦ hnot (hkey ▸ hname), hkey⟩

theorem Database.Sound.resolved_of_insertTeam {d d' : Database}
    (h : d.Sound seeded maxUploadSize came) {name : String} {id apiKeyId : Uuid}
    (hinsert : d.insertTeam id name ("api-key-" ++ apiKeyId) = some d') :
    d.Resolved seeded name d' id := by
  rw [Database.insertTeam] at hinsert
  split_ifs at hinsert with hused
  obtain rfl := Option.some_inj.mp hinsert
  have hid : ∀ t ∈ d.teams, t.id ≠ id := fun t ht heq ↦ hused ⟨t, ht, .inl heq⟩
  have hname : ∀ t ∈ d.teams, t.name ≠ name := fun t ht heq ↦ hused ⟨t, ht, .inr (.inl heq)⟩
  have hsplit {t : Team} {ts : List Team} {t' : Team} (ht : t ∈ ts ++ [t']) : t ∈ ts ∨ t = t' :=
    (List.mem_append.mp ht).imp_right List.mem_singleton.mp
  refine ⟨rfl, fun t ht ↦ List.mem_append_left _ ht,
    ⟨_, List.mem_append_right _ List.mem_cons_self, rfl, .inl rfl⟩, fun t ht ↦ ?_,
    nodup_map_concat h.team_id hid, nodup_map_concat h.team_name hname, fun t ht ↦ ?_⟩
  · exact (hsplit ht).imp_right (congrArg Team.id)
  · rcases hsplit ht with ht | rfl
    · exact h.apiKey t ht
    · exact .inr (not_validName_apiKey apiKeyId)

/-- The transaction keeps the invariant. -/
theorem Database.Sound.insert {d d' : Database} (h : d.Sound seeded maxUploadSize came)
    {teamId : String} (hresolved : d.Resolved seeded u.team d' teamId) (hcame : came c)
    (hu : c.Accepts u) (hnew : ∀ row ∈ d'.submissions, row.id ≠ c.env.submissionId) :
    ({ d' with submissions := d'.submissions ++
      [u.row c.env teamId (c.env.submissionUrl c.env.submissionId)] } : Database).Sound seeded
        maxUploadSize came where
  row := by
    intro row hrow
    rcases List.mem_append.mp hrow with hrow | hrow
    · rw [hresolved.submissions] at hrow
      obtain ⟨c', hc', u', hu', t, ht, hteam⟩ := h.row row hrow
      exact ⟨c', hc', u', hu', t, hresolved.kept t ht, hteam⟩
    · obtain ⟨t, ht, rfl, hmeant⟩ := hresolved.found
      exact ⟨c, hcame, u, hu, t, ht, hmeant, List.mem_singleton.mp hrow⟩
  row_id := nodup_map_concat (hresolved.submissions ▸ h.row_id) hnew
  kept := fun t ht ↦ hresolved.kept t (h.kept t ht)
  team := by
    intro t ht
    rcases hresolved.other t ht with ht | rfl
    · refine (h.team t ht).imp_right fun hrow ↦ ?_
      obtain ⟨row, hrow, hteam⟩ := hrow
      exact ⟨row, List.mem_append_left _ (hresolved.submissions ▸ hrow), hteam⟩
    · exact .inr ⟨_, List.mem_append_right _ List.mem_cons_self, rfl⟩
  team_id := hresolved.team_id
  team_name := hresolved.team_name
  apiKey := hresolved.apiKey

/-! ## What each part of the handler keeps -/

section

variable {p : World → Prop}

theorem reach_meets (env : Env) (stage : Stage) :
    Meets p (env.reach stage) (fun _ ↦ p) fun _ ↦ p := by
  rw [Env.reach]
  cases env.throws stage with
  | some what => exact Meets.throw fun _ h ↦ h
  | none => exact Meets.pure fun _ h ↦ h

theorem resolveTeamUuid_meets {d : Database} (h : d.Sound seeded maxUploadSize came) (env : Env) :
    Meets p (resolveTeamUuid env d u.team true)
      (fun result w ↦ p w ∧ d.Resolved seeded u.team result.1 result.2) fun _ ↦ p := by
  rw [resolveTeamUuid, if_neg u.team_ne]
  refine (reach_meets env .resolve).bind fun _ ↦ ?_
  cases hfind : d.shared.findTeam u.team with
  | some t => exact Meets.pure fun w hp ↦ ⟨hp, h.resolved_of_findTeam u.validName_team hfind⟩
  | none =>
    dsimp only
    rw [if_pos ⟨rfl, u.validName_team⟩]
    cases hinsert : d.insertTeam env.teamId u.team ("api-key-" ++ env.apiKeyId) with
    | some d' => exact Meets.pure fun w hp ↦ ⟨hp, h.resolved_of_insertTeam hinsert⟩
    | none => exact Meets.throw fun _ hp ↦ hp

theorem insertSubmission_meets (env : Env) (d : Database) (row : Row) :
    Meets p (insertSubmission env d row) (fun d' w ↦ p w ∧
      d' = { d with submissions := d.submissions ++ [row] } ∧
        ∀ row' ∈ d.submissions, row'.id ≠ row.id) fun _ ↦ p := by
  rw [insertSubmission]
  refine (reach_meets env .insert).bind fun _ ↦ ?_
  by_cases hused : ∃ row' ∈ d.submissions, row'.id = row.id
  · rw [if_pos hused]
    exact Meets.throw fun _ hp ↦ hp
  · rw [if_neg hused]
    exact Meets.pure fun w hp ↦ ⟨hp, rfl, fun row' hrow' hid ↦ hused ⟨row', hrow', hid⟩⟩

end

/-- Behind the commit the submission is there, and its build has not been asked for. -/
def World.Committed (seeded : List Team) (maxUploadSize : ℤ) (came : Posted → Prop)
    (b : BuildRequest) (w : World) : Prop :=
  w.Sound seeded maxUploadSize came ∧ w.HasRow b.submissionId ∧
    (w.builds ++ [b]).Sublist (w.db.submissions.map Row.build)

theorem announce_meets (env : Env) (u : Upload) (url : String) :
    Meets (World.Committed seeded maxUploadSize came ⟨env.submissionId, u.language, url⟩)
      (announce env u url) (fun _ ↦ World.Sound seeded maxUploadSize came)
      fun _ ↦ World.Sound seeded maxUploadSize came := by
  have hadd : Meets (fun w ↦ w.Sound seeded maxUploadSize came ∧ w.HasRow env.submissionId)
      (addActive env) (fun _ ↦ World.Sound seeded maxUploadSize came)
      fun _ ↦ World.Sound seeded maxUploadSize came := by
    rw [addActive]
    split_ifs
    · exact Meets.pure fun _ h ↦ h.1
    · refine Meets.modify fun w h ↦ { h.1 with active := fun id hid ↦ ?_ }
      obtain ⟨hsound, hrow⟩ := h
      rcases Finset.mem_insert.mp hid with rfl | hid
      · exact hrow
      · exact hsound.active id hid
  have htrigger : Meets
      (World.Committed seeded maxUploadSize came ⟨env.submissionId, u.language, url⟩)
      (env.reach .trigger)
      (fun _ ↦ World.Committed seeded maxUploadSize came ⟨env.submissionId, u.language, url⟩)
      fun _ ↦ World.Sound seeded maxUploadSize came := by
    rw [Env.reach]
    cases env.throws .trigger with
    | some what => exact Meets.throw fun _ h ↦ h.1
    | none => exact Meets.pure fun _ h ↦ h
  refine htrigger.bind fun _ ↦ (Meets.modify ?_).bind fun _ ↦ hadd.bind fun _ ↦
    (reach_meets env .convert).bind fun _ ↦ (reach_meets env .respond).bind fun _ ↦
      Meets.pure fun _ h ↦ h
  rintro w ⟨hsound, hrow, hbuilds⟩
  exact ⟨{ hsound with builds := hbuilds }, hrow⟩

/-- The transaction, and what follows it. -/
theorem storeSubmission_meets (hcame : came c) (hu : c.Accepts u) :
    Meets (World.Sound seeded maxUploadSize came)
      (storeSubmission c.env u.toUpload (c.env.submissionUrl c.env.submissionId))
      (fun _ ↦ World.Sound seeded maxUploadSize came)
      fun _ ↦ World.Sound seeded maxUploadSize came := by
  refine (reach_meets c.env .acquire).bind fun _ ↦ Meets.get.bind fun w ↦ ?_
  refine Meets.of_state ?_
  rintro w' ⟨hsound, rfl⟩
  refine ((resolveTeamUuid_meets hsound.db c.env).imp_throws fun _ _ h ↦ h ▸ hsound).bind ?_
  rintro ⟨d, teamId⟩
  refine Meets.of_state ?_
  rintro w' ⟨hw, hresolved⟩
  subst w'
  dsimp only at hresolved ⊢
  by_cases hteam : teamId = ""
  · rw [if_pos hteam]
    exact Meets.pure fun _ h ↦ h ▸ hsound
  rw [if_neg hteam]
  refine ((insertSubmission_meets c.env d _).imp_throws fun _ _ h ↦ h ▸ hsound).bind fun d' ↦ ?_
  refine Meets.of_state ?_
  rintro w' ⟨hw, rfl, hnew⟩
  subst w'
  refine ((reach_meets c.env .commit).imp_throws fun _ _ h ↦ h ▸ hsound).bind fun _ ↦
    (Meets.modify ?_).bind fun _ ↦ announce_meets c.env u.toUpload _
  intro w' hw
  subst w'
  have hkept : ∀ row ∈ w.db.submissions, row ∈ d.submissions ++
      [u.row c.env teamId (c.env.submissionUrl c.env.submissionId)] := by
    intro row hrow
    exact List.mem_append_left _ (hresolved.submissions ▸ hrow)
  refine ⟨⟨hsound.db.insert hresolved hcame hu hnew, hsound.object, ?_, ?_⟩, ?_, ?_⟩
  · intro id hid
    obtain ⟨row, hrow, hrowid⟩ := hsound.active id hid
    exact ⟨row, hkept row hrow, hrowid⟩
  · rw [List.map_append, hresolved.submissions]
    exact hsound.builds.trans (List.sublist_append_left _ _)
  · exact ⟨_, List.mem_append_right _ List.mem_cons_self, rfl⟩
  · rw [List.map_append, hresolved.submissions]
    exact hsound.builds.append (List.Sublist.refl _)

theorem submit_meets (hcame : came c) (hu : c.Accepts u) :
    Meets (World.Sound seeded maxUploadSize came) (submit c.env u.toUpload)
      (fun _ ↦ World.Sound seeded maxUploadSize came)
      fun _ ↦ World.Sound seeded maxUploadSize came := by
  have hupload : Meets (World.Sound seeded maxUploadSize came) (uploadSource c.env u.toUpload)
      (fun url w ↦ w.Sound seeded maxUploadSize came ∧ url = c.env.submissionUrl c.env.submissionId)
      fun _ ↦ World.Sound seeded maxUploadSize came := by
    intro w hsound
    cases hthrows : c.env.throws .upload with
    | some what =>
      rw [outcome_uploadSource_of_some u.toUpload hthrows]
      dsimp only
      split_ifs
      · exact hsound.put hcame hu
      · exact hsound
    | none =>
      rw [outcome_uploadSource_of_none u.toUpload hthrows]
      exact ⟨hsound.put hcame hu, rfl⟩
  have htry : Meets (World.Sound seeded maxUploadSize came) (tryBlock c.env u.toUpload)
      (fun _ ↦ World.Sound seeded maxUploadSize came)
      fun _ ↦ World.Sound seeded maxUploadSize came := by
    refine hupload.observing.bind fun result ↦ ?_
    rcases result with what | url
    · exact Meets.pure fun _ h ↦ h
    · rintro w ⟨hsound, rfl⟩
      exact storeSubmission_meets hcame hu w hsound
  refine htry.tryCatch fun what ↦ (Meets.modify fun w h ↦ ?_).bind fun _ ↦ Meets.pure fun _ h ↦ h
  exact h.delete _

/-! ## Runs -/

/-- **The step lemma.** -/
theorem World.Sound.post (h : w.Sound seeded maxUploadSize came) (hcame : came c) {w' : World}
    (hpost : w.post maxUploadSize c = some w') : w'.Sound seeded maxUploadSize came := by
  rcases World.post_cases hpost with rfl | ⟨u, hu, rfl⟩
  · exact h
  · exact (submit_meets hcame hu).state h

/-- As a migration leaves the stores: there may be teams, and nothing else. -/
structure World.Installed (w : World) : Prop where
  objects : w.objects = ∅
  submissions : w.db.submissions = []
  team_id : (w.db.teams.map Team.id).Nodup
  team_name : (w.db.teams.map Team.name).Nodup
  activeSubmissions : w.activeSubmissions = ∅
  builds : w.builds = []

theorem World.installed_empty : World.empty.Installed :=
  ⟨rfl, rfl, List.nodup_nil, List.nodup_nil, rfl, rfl⟩

theorem World.Installed.sound (h : w.Installed) : w.Sound w.db.teams maxUploadSize came where
  db :=
    { row := by simp [h.submissions]
      row_id := by simp [h.submissions]
      kept := fun _ ht ↦ ht
      team := fun _ ht ↦ .inl ht
      team_id := h.team_id
      team_name := h.team_name
      apiKey := fun _ ht ↦ .inl ht }
  object := by
    intro key content hlookup
    rw [h.objects] at hlookup
    cases hlookup
  active := by simp [h.activeSubmissions]
  builds := by
    rw [h.builds]
    exact List.nil_sublist _

theorem World.Installed.sound_of_exec {w₀ : World} (h₀ : w₀.Installed) {calls : List Posted}
    (h : exec (World.post maxUploadSize) w₀ calls = some w) :
    w.Sound w₀.db.teams maxUploadSize (· ∈ calls) :=
  (guarded_of_forall_mem (· ∈ calls) (fun _ hc ↦ hc) _).invariant
    (fun _ _ _ hsound hc hpost ↦ hsound.post hc hpost) h₀.sound h

/-- A binary whose one program header does not name an interpreter. -/
def staticBinary : List UInt8 :=
  elfMagic ++ record [(1, 2), (27, 0), (8, 64), (14, 0), (2, 56), (2, 1), (6, 0), (4, 1), (52, 0)]

/-- An upload of a file, by a form that is filled in. -/
def teamCall (team fileName : String) (content : List UInt8) : Posted where
  form := some
    { parameters := fun name ↦
        if name = "team_name" then some team
        else if name = "email" then some "team@example.org"
        else if name = "language" then some "rust"
        else none
      files := [⟨"file", fileName, content⟩] }
  around :=
    { fuel := 1
      toString := fun _ ↦ ""
      disableClamav := false
      clamdscan := 32512
      clamscan := 32512 }
  env := { untriggered with throws := fun _ ↦ none }

abbrev sampleCall : String → List UInt8 → Posted := teamCall "team-1"

/-- The team of the first migration is there. -/
def demoWorld : World where
  objects := ∅
  db :=
    { teams := [⟨"1d0f9a52-6a2e-4d8c-9d0b-3a8f1f6b7c11", "Demo Team",
        "demo-api-key-1234567890abcdef"⟩]
      submissions := []
      id_ne := by decide }
  activeSubmissions := ∅
  builds := []

end BenchmarkPlatform.Uploads
