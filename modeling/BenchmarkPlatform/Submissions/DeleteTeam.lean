import Mathlib.Data.List.Find
import BenchmarkPlatform.Submissions.Teams

/-!
# A deleted team and the leaderboard

DELETE removes the rows of a team, and its entry and hash in Redis. It does not reach what is in
flight: a round of the finalizer that has read the name of the team, a finalize request that carries
it, an execution of `FinalizeRun` between its two writes. Each of them goes on to write the name.

The name of a team has at most 32 characters and the id of a submission 36, so a poll that finds no
team any more, and takes the id for its name, cannot bring a team back.
-/

namespace BenchmarkPlatform.Teams

open Lib

/-! ## The law -/

/-- The step stores a submission for a team of that name. -/
def Pc.Submits (name : String) (s : Shared) (env : Env) : Pc → Prop
  | .submit team => ∃ r ∈ s.submit env team, r.2.name = name
  | _ => False

instance (name : String) (s : Shared) (env : Env) : DecidablePred (Pc.Submits name s env)
  | .submit team => inferInstanceAs (Decidable (∃ r ∈ s.submit env team, r.2.name = name))
  | .setStatus _ _ | .pollRead _ | .pollAsked _ | .pollReply _ _ | .pollTeam _ | .finalizerRead _
  | .finalizerAsked _ _ | .finalizerReply _ _ _ | .finalizerSend _ _ | .request _ _ | .zadd _
  | .hmset _ | .delete _ | .deleteRows _ _ | .zrem _ _ | .del _ _ _ | .done _ => isFalse not_false

def Submits (name : String) (s : State) : Event → Prop
  | .start _ => False
  | .run i env => ∃ pc ∈ s.threads[i]?, pc.Submits name s.shared env

instance (name : String) (s : State) : DecidablePred (Submits name s)
  | .start _ => isFalse not_false
  | .run i env => inferInstanceAs (Decidable (∃ pc ∈ s.threads[i]?, pc.Submits name s.shared env))

/-- The name is new in the sorted set, or its hash is. -/
def Shared.Restored (name : String) (s s' : Shared) : Prop :=
  (name ∉ s.leaderboard ∧ name ∈ s'.leaderboard) ∨ (name ∉ s.scores ∧ name ∈ s'.scores)

/-- The step adds the team back to the sorted set, or makes its hash again. -/
def Restores (name : String) (s : State) (e : Event) : Prop :=
  ∃ s' ∈ step s e, s.shared.Restored name s'.shared

/-- The length of a name of a team. -/
def NameLength (name : String) : Prop := 3 ≤ name.length ∧ name.length ≤ 32

/-- The step is the DEL that completes a deletion: of a team the database had, or of what may be the
name of one. -/
def Deletes (name : String) (s : State) : Event → Prop
  | .start _ => False
  | .run i env => env.redisError = false ∧ ∃ inDb removed,
    s.threads[i]? = some (.del name inDb removed) ∧ (inDb = true ∨ NameLength name)

/-- The thread holds the name and is going to write it, if nothing fails. -/
def Pc.Holds (name : String) : Pc → Prop
  | .finalizerAsked _ n => n = name
  | .finalizerReply _ n report => n = name ∧ report = some "completed"
  | .finalizerSend _ n => n = name
  | .request _ n => n = name
  | .zadd n => n = name
  | .hmset n => n = name
  | _ => False

/-- No submission of a team of that name is stored. -/
def Shared.NoRow (name : String) (s : Shared) : Prop :=
  ∀ row ∈ s.submissions, s.teamName row ≠ some name

/-- Nothing can lead to the name any more. -/
structure State.Clear (name : String) (s : State) : Prop where
  rows : s.shared.NoRow name
  threads : ∀ pc ∈ s.threads, ¬pc.Holds name

/-! ## Names and ids -/

structure Shared.Sound (s : Shared) : Prop where
  names : ∀ t ∈ s.teams, NameLength t.name
  unique : ∀ t ∈ s.teams, ∀ u ∈ s.teams, t.name = u.name → t = u
  teams : (s.teams.map Team.id).Nodup
  ids : ∀ row ∈ s.submissions, row.id.length = 36
  nodup : (s.submissions.map Submission.id).Nodup

/-- What is known of the id or the name a thread goes on with. -/
def Pc.Sound : Pc → Prop
  | .pollAsked id => id.length = 36
  | .pollReply id _ => id.length = 36
  | .pollTeam id => id.length = 36
  | .deleteRows name _ => NameLength name
  | .zrem name inDb => inDb = true → NameLength name
  | .del name inDb _ => inDb = true → NameLength name
  | _ => True

structure State.Inv (s : State) : Prop where
  shared : s.shared.Sound
  threads : ∀ pc ∈ s.threads, pc.Sound

namespace Shared

variable {s s' : Shared} {id name status : String} {env : Env}

/-- The rows are those there were, but for statuses. -/
def Rewrites (s s' : Shared) : Prop :=
  ∃ p status, s'.teams = s.teams ∧ s'.submissions = (s.update p status).submissions

theorem Rewrites.refl (s : Shared) : s.Rewrites s :=
  ⟨fun _ ↦ false, "", rfl, by simp [update]⟩

theorem map_id_update (s : Shared) (p : Submission → Bool) (status : String) :
    (s.update p status).submissions.map Submission.id = s.submissions.map Submission.id := by
  rw [update, List.map_map]
  refine List.map_congr_left fun row _ ↦ ?_
  rw [Function.comp_apply]
  cases p row <;> rfl

/-- A row after an update was there before, but for its status. -/
theorem mem_update {p : Submission → Bool} {row : Submission}
    (h : row ∈ (s.update p status).submissions) :
    ∃ row' ∈ s.submissions, row.id = row'.id ∧ row.teamId = row'.teamId := by
  obtain ⟨row', hmem, rfl⟩ := List.mem_map.mp h
  refine ⟨row', hmem, ?_⟩
  cases p row' <;> exact ⟨rfl, rfl⟩

theorem row_mem {row : Submission} (h : s.row id = some row) : row ∈ s.submissions ∧ row.id = id :=
  ⟨List.mem_of_find?_eq_some h, by simpa using List.find?_some h⟩

theorem Sound.rewrites (h : s.Sound) (hrewrites : s.Rewrites s') : s'.Sound := by
  obtain ⟨p, status, hteams, hsubmissions⟩ := hrewrites
  refine ⟨hteams ▸ h.names, hteams ▸ h.unique, hteams ▸ h.teams, fun row hrow ↦ ?_, ?_⟩
  · rw [hsubmissions] at hrow
    obtain ⟨row', hmem, hid, -⟩ := mem_update hrow
    exact hid ▸ h.ids row' hmem
  · rw [hsubmissions, map_id_update]
    exact h.nodup

theorem Sound.deleteTeam (h : s.Sound) (teamId : String) : (s.deleteTeam teamId).Sound where
  names t ht := h.names t (List.mem_of_mem_filter ht)
  unique t ht u hu := h.unique t (List.mem_of_mem_filter ht) u (List.mem_of_mem_filter hu)
  teams := h.teams.sublist (List.filter_sublist.map _)
  ids row hrow := h.ids row (List.mem_of_mem_filter hrow)
  nodup := h.nodup.sublist (List.filter_sublist.map _)

/-- The team a submission is for is stored, or is created with a valid name and a new id. -/
theorem resolveTeam_eq_some {input : String} {t : Team}
    (h : s.resolveTeam env input = some (s', t)) :
    (t ∈ s.teams ∧ s' = s) ∨
      (ValidName t.name ∧ (∀ u ∈ s.teams, u.id ≠ t.id ∧ u.name ≠ t.name) ∧
        s' = { s with teams := s.teams ++ [t] }) := by
  rw [resolveTeam] at h
  by_cases hempty : input = ""
  · simp [hempty] at h
  rw [if_neg hempty] at h
  cases hfind : s.findTeam input with
  | some u =>
    rw [hfind] at h
    obtain ⟨rfl, rfl⟩ := Prod.mk.inj (Option.some_inj.mp h)
    exact .inl ⟨findTeam_mem hfind, rfl⟩
  | none =>
    rw [hfind] at h
    dsimp only at h
    split_ifs at h with hvalid
    obtain ⟨u, hinsert, heq⟩ := Option.map_eq_some_iff.mp h
    obtain ⟨rfl, rfl⟩ := Prod.mk.inj heq
    rw [insertTeam] at hinsert
    split_ifs at hinsert with hunique
    refine .inr ⟨hvalid, fun u hu ↦ ⟨?_, ?_⟩, (Option.some_inj.mp hinsert).symm⟩
    · exact fun hid ↦ hunique ⟨u, hu, .inl hid⟩
    · exact fun hname ↦ hunique ⟨u, hu, .inr (.inl hname)⟩

/-- What a committed transaction of POST submit leaves. -/
theorem submit_eq_some {input : String} {t : Team} (h : s.submit env input = some (s', t)) :
    s.row env.submissionId = none ∧
      ∃ teams, s' = ⟨teams, s.submissions ++ [⟨env.submissionId, t.id, "pending"⟩], s.leaderboard,
          s.scores⟩ ∧
        ((t ∈ s.teams ∧ teams = s.teams) ∨
          (ValidName t.name ∧ (∀ u ∈ s.teams, u.id ≠ t.id ∧ u.name ≠ t.name) ∧
            teams = s.teams ++ [t])) := by
  rw [submit] at h
  split at h
  · simp at h
  · rename_i u v hresolve
    split_ifs at h with hfail
    obtain ⟨rfl, rfl⟩ := Prod.mk.inj (Option.some_inj.mp h)
    push Not at hfail
    rcases resolveTeam_eq_some hresolve with ⟨hmem, rfl⟩ | ⟨hvalid, hnew, rfl⟩
    · exact ⟨by simpa using hfail.2, _, rfl, .inl ⟨hmem, rfl⟩⟩
    · exact ⟨by simpa [row] using hfail.2, _, rfl, .inr ⟨hvalid, hnew, rfl⟩⟩

theorem Sound.submit (h : s.Sound) {input : String} {t : Team}
    (hsubmit : s.submit env input = some (s', t)) : s'.Sound := by
  -- the team is stored already, or it is the one added
  obtain ⟨hnone, teams, rfl, hteams⟩ := submit_eq_some hsubmit
  refine ⟨fun u hu ↦ ?_, ?_, ?_, fun row hrow ↦ ?_, ?_⟩
  · rcases hteams with ⟨-, rfl⟩ | ⟨hvalid, -, rfl⟩
    · exact h.names u hu
    · rcases List.mem_append.mp hu with hu | hu
      · exact h.names u hu
      · exact List.mem_singleton.mp hu ▸ ⟨hvalid.1, hvalid.2.1⟩
  · rcases hteams with ⟨-, rfl⟩ | ⟨-, hnew, rfl⟩
    · exact h.unique
    · intro u hu v hv heq
      rcases List.mem_append.mp hu with hu' | hu' <;> rcases List.mem_append.mp hv with hv' | hv'
      · exact h.unique u hu' v hv' heq
      · obtain rfl := List.mem_singleton.mp hv'
        exact absurd heq (hnew u hu').2
      · obtain rfl := List.mem_singleton.mp hu'
        exact absurd heq.symm (hnew v hv').2
      · rw [List.mem_singleton.mp hu', List.mem_singleton.mp hv']
  · rcases hteams with ⟨-, rfl⟩ | ⟨-, hnew, rfl⟩
    · exact h.teams
    · rw [List.map_append, List.nodup_append]
      refine ⟨h.teams, List.nodup_singleton _, ?_⟩
      rintro id hid id' hid' rfl
      obtain ⟨u, hu, rfl⟩ := List.mem_map.mp hid
      exact (hnew u hu).1 (by simpa using hid')
  · rcases List.mem_append.mp hrow with hrow | hrow
    · exact h.ids row hrow
    · exact List.mem_singleton.mp hrow ▸ env.submissionId.property
  · rw [List.map_append, List.nodup_append]
    refine ⟨h.nodup, List.nodup_singleton _, ?_⟩
    rintro id hid id' hid' rfl
    obtain ⟨row, hrow, rfl⟩ := List.mem_map.mp hid
    -- the id drawn is not in the table, by the primary key
    have hne := List.find?_eq_none.mp hnone row hrow
    simp at hid' hne
    exact hne hid'

theorem NoRow.rewrites (h : s.NoRow name) (hrewrites : s.Rewrites s') : s'.NoRow name := by
  obtain ⟨p, status, hteams, hsubmissions⟩ := hrewrites
  intro row hrow
  rw [hsubmissions] at hrow
  obtain ⟨row', hmem, -, hteam⟩ := mem_update hrow
  rw [teamName, hteams, hteam]
  exact h row' hmem

theorem NoRow.deleteTeam (h : s.NoRow name) (teamId : String) :
    (s.deleteTeam teamId).NoRow name := by
  intro row hrow
  obtain ⟨hmem, hne⟩ := List.mem_filter.mp hrow
  have hsame : (s.deleteTeam teamId).teamName row = s.teamName row := by
    rw [teamName, teamName, Shared.deleteTeam, List.find?_filter]
    refine congrArg _ (List.find?_congr fun t _ ↦ ?_)
    by_cases hid : t.id = row.teamId <;> simp_all
  rw [hsame]
  exact h row hmem

/-- The transaction of DELETE leaves no submission of the team. -/
theorem Sound.noRow_deleteTeam (h : s.Sound) {t : Team} (ht : t ∈ s.teams) :
    (s.deleteTeam t.id).NoRow t.name := by
  intro row hrow hteam
  obtain ⟨u, hu, hname⟩ := Option.map_eq_some_iff.mp hteam
  obtain ⟨hmem, hne⟩ := List.mem_filter.mp (List.mem_of_find?_eq_some hu)
  obtain rfl := h.unique u hmem t ht hname
  simp at hne

theorem NoRow.submit (h : s.NoRow name) (hs : s.Sound) {input : String} {t : Team}
    (hsubmit : s.submit env input = some (s', t)) (hne : t.name ≠ name) : s'.NoRow name := by
  obtain ⟨-, teams, rfl, hteams⟩ := submit_eq_some hsubmit
  intro row hrow heq
  obtain ⟨u, hu, hname⟩ := Option.map_eq_some_iff.mp heq
  have hid : u.id = row.teamId := by simpa using List.find?_some hu
  have hmem : u ∈ teams := List.mem_of_find?_eq_some hu
  rcases List.mem_append.mp hrow with hold | hrow
  · rcases hteams with ⟨-, rfl⟩ | ⟨-, -, rfl⟩
    · exact h row hold heq
    · rw [List.find?_append, Option.or_eq_some_iff] at hu
      rcases hu with hu | ⟨-, hu⟩
      · exact h row hold (by rw [teamName, hu, Option.map_some, hname])
      · obtain rfl := List.mem_singleton.mp (List.mem_of_find?_eq_some hu)
        exact hne hname
  · obtain rfl := List.mem_singleton.mp hrow
    have hut : u = t := by
      rcases hteams with ⟨ht, rfl⟩ | ⟨-, hnew, rfl⟩
      · exact List.inj_on_of_nodup_map hs.teams hmem ht hid
      · rcases List.mem_append.mp hmem with hmem | hmem
        · exact absurd hid (hnew u hmem).1
        · exact List.mem_singleton.mp hmem
    exact hne (hut ▸ hname)

end Shared

variable {s s' : Shared} {env : Env} {pc pc' : Pc} {name : String}

/-- A step that uses the database leads where it should, unless the database throws. -/
theorem database_cases {r : Shared × Pc} (h : some (env.database s r) = some (s', pc')) :
    (s' = s ∧ pc' = .done none) ∨ (s' = r.1 ∧ pc' = r.2) := by
  rw [Env.database, Option.some_inj] at h
  split_ifs at h
  · exact .inl (Prod.mk.inj h.symm)
  · obtain rfl := h
    exact .inr ⟨rfl, rfl⟩

/-- **What a step does to the rows.** POST submit stores a submission, DELETE removes those of a
team, and the other steps write statuses at most. -/
theorem advance_rows (h : advance s env pc = some (s', pc')) :
    (∃ team t, pc = .submit team ∧ s.submit env team = some (s', t)) ∨
    (∃ n teamId, pc = .deleteRows n teamId ∧ s' = s.deleteTeam teamId) ∨
    s.Rewrites s' := by
  have hdatabase : ∀ {r : Shared × Pc}, some (env.database s r) = some (s', pc') →
      s.Rewrites r.1 → s.Rewrites s' := by
    intro r heq hr
    rcases database_cases heq with ⟨rfl, -⟩ | ⟨rfl, -⟩
    · exact .refl _
    · exact hr
  cases pc with
  | submit team =>
    obtain ⟨rfl, -⟩ := Prod.mk.inj (Option.some_inj.mp h)
    cases hsubmit : s.submit env team with
    | none => exact .inr (.inr (.refl s))
    | some r => exact .inl ⟨team, r.2, rfl, hsubmit⟩
  | deleteRows n teamId =>
    rw [advance] at h
    split_ifs at h
    · obtain ⟨rfl, -⟩ := Prod.mk.inj (Option.some_inj.mp h)
      exact .inr (.inr (.refl _))
    · obtain ⟨rfl, -⟩ := Prod.mk.inj (Option.some_inj.mp h)
      exact .inr (.inl ⟨n, teamId, rfl, rfl⟩)
  -- the writers of a status
  | setStatus id status => exact .inr (.inr (hdatabase h ⟨_, _, rfl, rfl⟩))
  | pollReply id report =>
    rw [advance] at h
    by_cases hempty : Submissions.newStatus (report.getD "") = ""
    · rw [if_pos hempty] at h
      exact .inr (.inr ((Prod.mk.inj (Option.some_inj.mp h)).1 ▸ .refl s))
    · rw [if_neg hempty] at h
      exact .inr (.inr (hdatabase h ⟨_, _, rfl, rfl⟩))
  | finalizerReply id n report =>
    rw [advance] at h
    split at h
    · exact .inr (.inr ((Prod.mk.inj (Option.some_inj.mp h)).1 ▸ .refl s))
    · exact .inr (.inr (hdatabase h ⟨_, _, rfl, rfl⟩))
  -- the readers
  | pollRead id => exact .inr (.inr (hdatabase h (.refl s)))
  | pollTeam id => exact .inr (.inr (hdatabase h (.refl s)))
  | finalizerRead id => exact .inr (.inr (hdatabase h (.refl s)))
  | delete n =>
    rw [advance] at h
    split_ifs at h <;> exact .inr (.inr ((Prod.mk.inj (Option.some_inj.mp h)).1 ▸ .refl s))
  -- the commands to Redis
  | zadd n =>
    rw [advance] at h
    split_ifs at h <;> exact .inr (.inr ((Prod.mk.inj (Option.some_inj.mp h)).1 ▸ .refl s))
  | hmset n =>
    rw [advance] at h
    split_ifs at h <;> exact .inr (.inr ((Prod.mk.inj (Option.some_inj.mp h)).1 ▸ .refl s))
  | zrem n inDb =>
    rw [advance] at h
    split_ifs at h <;> exact .inr (.inr ((Prod.mk.inj (Option.some_inj.mp h)).1 ▸ .refl s))
  | del n inDb removed =>
    rw [advance] at h
    split_ifs at h <;> exact .inr (.inr ((Prod.mk.inj (Option.some_inj.mp h)).1 ▸ .refl s))
  | done code => simp [advance] at h
  | _ => exact .inr (.inr ((Prod.mk.inj (Option.some_inj.mp h)).1 ▸ .refl s))

/-- **The step lemma of names and ids.** -/
theorem advance_sound (hs : s.Sound) (h : advance s env pc = some (s', pc')) : s'.Sound := by
  rcases advance_rows h with ⟨team, t, -, hsubmit⟩ | ⟨n, teamId, -, rfl⟩ | hrewrites
  · exact hs.submit hsubmit
  · exact hs.deleteTeam teamId
  · exact hs.rewrites hrewrites

/-- What a thread goes on with is the id of a row, the name of a team or what it had before. -/
theorem advance_pcSound (hs : s.Sound) (hpc : pc.Sound) (h : advance s env pc = some (s', pc')) :
    pc'.Sound := by
  have hdatabase : ∀ {r : Shared × Pc}, some (env.database s r) = some (s', pc') →
      r.2.Sound → pc'.Sound := by
    intro r heq hr
    rcases database_cases heq with ⟨-, rfl⟩ | ⟨-, rfl⟩
    · trivial
    · exact hr
  cases pc with
  | setStatus id status => exact hdatabase h trivial
  | pollRead id =>
    refine hdatabase h ?_
    cases hrow : s.row id with
    | none => trivial
    | some row =>
      obtain ⟨hmem, rfl⟩ := Shared.row_mem hrow
      dsimp only
      split_ifs
      · exact hs.ids row hmem
      · trivial
  | pollAsked id =>
    obtain ⟨-, rfl⟩ := Prod.mk.inj (Option.some_inj.mp h)
    exact hpc
  | pollReply id report =>
    rw [advance] at h
    by_cases hempty : Submissions.newStatus (report.getD "") = ""
    · rw [if_pos hempty] at h
      obtain ⟨-, rfl⟩ := Prod.mk.inj (Option.some_inj.mp h)
      trivial
    · rw [if_neg hempty] at h
      refine hdatabase h ?_
      dsimp only
      split_ifs
      · exact hpc
      · trivial
  | pollTeam id => exact hdatabase h trivial
  | finalizerRead id =>
    refine hdatabase h ?_
    dsimp only
    split
    · trivial
    · split
      · trivial
      · split_ifs <;> trivial
  | finalizerReply id n report =>
    rw [advance] at h
    split at h
    · obtain ⟨-, rfl⟩ := Prod.mk.inj (Option.some_inj.mp h)
      trivial
    · refine hdatabase h ?_
      dsimp only
      split_ifs <;> trivial
  | request id n =>
    obtain ⟨-, rfl⟩ := Prod.mk.inj (Option.some_inj.mp h)
    split_ifs <;> trivial
  | zadd n =>
    rw [advance] at h
    split_ifs at h <;>
    · obtain ⟨-, rfl⟩ := Prod.mk.inj (Option.some_inj.mp h)
      trivial
  | delete n =>
    rw [advance] at h
    split_ifs at h
    · obtain ⟨-, rfl⟩ := Prod.mk.inj (Option.some_inj.mp h)
      trivial
    · obtain ⟨-, rfl⟩ := Prod.mk.inj (Option.some_inj.mp h)
      cases hfind : s.teams.find? fun t ↦ t.name = n with
      | none => exact fun hfalse ↦ absurd hfalse (by simp)
      | some t =>
        -- the name comes from a stored team
        obtain rfl : t.name = n := by simpa using List.find?_some hfind
        exact hs.names t (List.mem_of_find?_eq_some hfind)
  | deleteRows n teamId =>
    rw [advance] at h
    split_ifs at h
    · obtain ⟨-, rfl⟩ := Prod.mk.inj (Option.some_inj.mp h)
      trivial
    · obtain ⟨-, rfl⟩ := Prod.mk.inj (Option.some_inj.mp h)
      exact fun _ ↦ hpc
  | zrem n inDb =>
    rw [advance] at h
    split_ifs at h
    · obtain ⟨-, rfl⟩ := Prod.mk.inj (Option.some_inj.mp h)
      trivial
    · obtain ⟨-, rfl⟩ := Prod.mk.inj (Option.some_inj.mp h)
      exact hpc
  | del n inDb removed =>
    rw [advance] at h
    split_ifs at h <;>
    · obtain ⟨-, rfl⟩ := Prod.mk.inj (Option.some_inj.mp h)
      trivial
  | done code => simp [advance] at h
  | _ =>
    obtain ⟨-, rfl⟩ := Prod.mk.inj (Option.some_inj.mp h)
    trivial

/-- Only POST submit stores a submission, so the rows of a team that are gone stay gone. -/
theorem advance_noRow (hs : s.Sound) (hrows : s.NoRow name) (hsubmits : ¬pc.Submits name s env)
    (h : advance s env pc = some (s', pc')) : s'.NoRow name := by
  rcases advance_rows h with ⟨team, t, rfl, hsubmit⟩ | ⟨n, teamId, -, rfl⟩ | hrewrites
  · exact hrows.submit hs hsubmit fun heq ↦ hsubmits ⟨(s', t), hsubmit, heq⟩
  · exact hrows.deleteTeam teamId
  · exact hrows.rewrites hrewrites

/-- What a step from where nothing leads to a name must not do: hold the name, or write it. -/
structure Unharmed (name : String) (s s' : Shared) (pc' : Pc) : Prop where
  holds : ¬pc'.Holds name
  restored : ¬s.Restored name s'

theorem Unharmed.of_subset (hholds : ¬pc'.Holds name)
    (hleaderboard : s'.leaderboard ⊆ s.leaderboard)
    (hscores : s'.scores ⊆ s.scores) : Unharmed name s s' pc' := by
  refine ⟨hholds, ?_⟩
  rintro (⟨hnot, hin⟩ | ⟨hnot, hin⟩)
  · exact hnot (hleaderboard hin)
  · exact hnot (hscores hin)

/-- A step that leaves Redis alone. -/
theorem Unharmed.same (hholds : ¬pc'.Holds name) : Unharmed name s s pc' :=
  .of_subset hholds subset_rfl subset_rfl

theorem Unharmed.of_some {r : Shared × Pc} (h : some r = some (s', pc'))
    (hr : Unharmed name s r.1 r.2) : Unharmed name s s' pc' := by
  obtain rfl := Option.some_inj.mp h
  exact hr

theorem Unharmed.of_database {r : Shared × Pc} (h : some (env.database s r) = some (s', pc'))
    (hr : Unharmed name s r.1 r.2) : Unharmed name s s' pc' := by
  rcases database_cases h with ⟨rfl, rfl⟩ | ⟨rfl, rfl⟩
  · exact .same not_false
  · exact hr

theorem endStatus_complete_iff (report : Option String) :
    Submissions.endStatus (report.getD "") = some "complete" ↔ report = some "completed" := by
  cases report with
  | none => simp [Submissions.endStatus]
  | some status =>
    unfold Submissions.endStatus
    split_ifs <;> simp_all

/-- The name of the team of a stored submission is not the deleted one, and neither is an id. -/
theorem pollTeam_ne {id : String} (hname : NameLength name) (hid : id.length = 36)
    (hrows : s.NoRow name) : ((s.row id).bind s.teamName).getD id ≠ name := by
  have hne : id ≠ name := by
    rintro rfl
    have h := hname.2
    omega
  cases hrow : s.row id with
  | none => exact hne
  | some row =>
    rw [Option.bind_some]
    cases hteam : s.teamName row with
    | none => exact hne
    | some n =>
      rintro rfl
      exact hrows row (Shared.row_mem hrow).1 hteam

/-- **The step lemma.** Where nothing leads to a name, no step leads to it. -/
theorem advance_unharmed (hpc : pc.Sound) (hname : NameLength name) (hrows : s.NoRow name)
    (hholds : ¬pc.Holds name) (h : advance s env pc = some (s', pc')) :
    Unharmed name s s' pc' := by
  cases pc with
  | submit team =>
    obtain ⟨rfl, rfl⟩ := Prod.mk.inj (Option.some_inj.mp h)
    cases hsubmit : s.submit env team with
    | none => exact .same not_false
    | some r =>
      obtain ⟨-, teams, hr, -⟩ := Shared.submit_eq_some hsubmit
      rw [Option.map_some, Option.getD_some]
      refine .of_subset not_false ?_ ?_ <;> rw [hr]
  | setStatus id status =>
    exact .of_database h (.of_subset not_false subset_rfl subset_rfl)
  | pollRead id =>
    refine .of_database h (.same ?_)
    dsimp only
    split
    · exact not_false
    · split_ifs <;> exact not_false
  | pollAsked id =>
    exact .of_some h (.same not_false)
  | pollReply id report =>
    rw [advance] at h
    by_cases hempty : Submissions.newStatus (report.getD "") = ""
    · rw [if_pos hempty] at h
      exact .of_some h (.same not_false)
    · rw [if_neg hempty] at h
      refine .of_database h (.of_subset ?_ subset_rfl subset_rfl)
      dsimp only
      split_ifs <;> exact not_false
  | pollTeam id => exact .of_database h (.same (pollTeam_ne hname hpc hrows))
  | finalizerRead id =>
    refine .of_database h (.same ?_)
    dsimp only
    split
    · exact not_false
    · rename_i row hrow
      split
      · exact not_false
      · rename_i n hteam
        split_ifs
        · rintro rfl
          exact hrows row (Shared.row_mem hrow).1 hteam
        · exact not_false
  | finalizerAsked id n =>
    exact .of_some h (.same fun hn ↦ hholds hn.1)
  | finalizerReply id n report =>
    rw [advance] at h
    cases hend : Submissions.endStatus (report.getD "") with
    | none =>
      rw [hend] at h
      exact .of_some h (.same not_false)
    | some status =>
      rw [hend] at h
      refine .of_database h (.of_subset ?_ subset_rfl subset_rfl)
      dsimp only
      split_ifs with hcomplete
      · rintro rfl
        -- the round goes on to send only when the answer was 'completed'
        rw [hcomplete, endStatus_complete_iff] at hend
        exact hholds ⟨rfl, hend⟩
      · exact not_false
  | finalizerSend id n =>
    exact .of_some h (.same hholds)
  | request id n =>
    obtain ⟨rfl, rfl⟩ := Prod.mk.inj (Option.some_inj.mp h)
    refine .same ?_
    split_ifs
    · exact hholds
    · exact not_false
  | zadd n =>
    rw [advance] at h
    split_ifs at h
    · exact .of_some h (.same not_false)
    · obtain ⟨rfl, rfl⟩ := Prod.mk.inj (Option.some_inj.mp h)
      -- ZADD of another name adds that name only
      refine ⟨hholds, ?_⟩
      rintro (⟨hnot, hin⟩ | ⟨hnot, hin⟩)
      · rcases Finset.mem_insert.mp hin with rfl | hin
        · exact hholds rfl
        · exact hnot hin
      · exact hnot hin
  | hmset n =>
    rw [advance] at h
    split_ifs at h
    · exact .of_some h (.same not_false)
    · obtain ⟨rfl, rfl⟩ := Prod.mk.inj (Option.some_inj.mp h)
      refine ⟨not_false, ?_⟩
      rintro (⟨hnot, hin⟩ | ⟨hnot, hin⟩)
      · exact hnot hin
      · rcases Finset.mem_insert.mp hin with rfl | hin
        · exact hholds rfl
        · exact hnot hin
  -- the delete itself only removes
  | delete n =>
    rw [advance] at h
    split_ifs at h <;>
    · obtain ⟨rfl, rfl⟩ := Prod.mk.inj (Option.some_inj.mp h)
      refine .same ?_
      first
      | exact not_false
      | split <;> exact not_false
  | deleteRows n teamId =>
    rw [advance] at h
    split_ifs at h <;>
    · obtain ⟨rfl, rfl⟩ := Prod.mk.inj (Option.some_inj.mp h)
      first
      | exact .same not_false
      | exact .of_subset not_false subset_rfl subset_rfl
  | zrem n inDb =>
    rw [advance] at h
    split_ifs at h <;>
    · obtain ⟨rfl, rfl⟩ := Prod.mk.inj (Option.some_inj.mp h)
      first
      | exact .same not_false
      | exact .of_subset not_false (Finset.erase_subset _ _) subset_rfl
  | del n inDb removed =>
    rw [advance] at h
    split_ifs at h <;>
    · obtain ⟨rfl, rfl⟩ := Prod.mk.inj (Option.some_inj.mp h)
      first
      | exact .same not_false
      | exact .of_subset not_false subset_rfl (Finset.erase_subset _ _)
  | done code => simp [advance] at h

/-! ## Nothing leads to the name -/

theorem State.Inv.next {s s' : State} {e : Event} (h : s.Inv) (hstep : step s e = some s') :
    s'.Inv := by
  cases e with
  | start k =>
    obtain rfl := Option.some_inj.mp hstep
    refine ⟨h.shared, Pool.forall_start h.threads ?_⟩
    cases k <;> trivial
  | run i env =>
    obtain ⟨l, pc, r, m, pc', hthreads, -, hadvance, rfl⟩ := Pool.next_run hstep
    have hpc' := advance_pcSound h.shared (h.threads pc (by simp [hthreads])) hadvance
    exact ⟨advance_sound h.shared hadvance,
      Pool.forall_run (hthreads ▸ h.threads) (fun _ ↦ id) hpc'⟩

theorem State.inv_initial : State.initial.Inv :=
  ⟨⟨by simp [initial], by simp [initial], by simp [initial], by simp [initial], by simp [initial]⟩,
    by simp [initial]⟩

theorem State.Clear.next {s s' : State} {e : Event} {name : String} (hclear : s.Clear name)
    (h : s.Inv) (hname : NameLength name) (hallowed : ¬Submits name s e)
    (hstep : step s e = some s') : s'.Clear name := by
  cases e with
  | start k =>
    obtain rfl := Option.some_inj.mp hstep
    refine ⟨hclear.rows, Pool.forall_start hclear.threads ?_⟩
    cases k <;> exact not_false
  | run i env =>
    obtain ⟨l, pc, r, m, pc', hthreads, hi, hadvance, rfl⟩ := Pool.next_run hstep
    have hmem : pc ∈ s.threads := by simp [hthreads]
    have hsubmits : ¬pc.Submits name s.shared env :=
      fun hsubmits ↦ hallowed ⟨pc, by simp [hthreads, ← hi], hsubmits⟩
    have hunharmed := advance_unharmed (h.threads pc hmem) hname hclear.rows
      (hclear.threads pc hmem) hadvance
    exact ⟨advance_noRow h.shared hclear.rows hsubmits hadvance,
      Pool.forall_run (hthreads ▸ hclear.threads) (fun _ ↦ id) hunharmed.holds⟩

theorem State.Clear.not_restores {s : State} {e : Event} {name : String} (hclear : s.Clear name)
    (h : s.Inv) (hname : NameLength name) : ¬Restores name s e := by
  rintro ⟨s', hstep, hrestored⟩
  cases e with
  | start k =>
    obtain rfl := Option.some_inj.mp hstep
    rcases hrestored with ⟨hnot, hin⟩ | ⟨hnot, hin⟩ <;> exact hnot hin
  | run i env =>
    obtain ⟨l, pc, r, m, pc', hthreads, -, hadvance, rfl⟩ := Pool.next_run hstep
    have hmem : pc ∈ s.threads := by simp [hthreads]
    exact (advance_unharmed (h.threads pc hmem) hname hclear.rows (hclear.threads pc hmem)
      hadvance).restored hrestored

theorem noRow_next {s s' : State} {e : Event} {name : String} (hrows : s.shared.NoRow name)
    (h : s.Inv) (hallowed : ¬Submits name s e) (hstep : step s e = some s') :
    s'.shared.NoRow name := by
  cases e with
  | start k =>
    obtain rfl := Option.some_inj.mp hstep
    exact hrows
  | run i env =>
    obtain ⟨l, pc, r, m, pc', hthreads, hi, hadvance, rfl⟩ := Pool.next_run hstep
    exact advance_noRow h.shared hrows
      (fun hsubmits ↦ hallowed ⟨pc, by simp [hthreads, ← hi], hsubmits⟩) hadvance

/-- **The rows stay gone.** Once the transaction of a DELETE has run for the team it found, no
submission of the team is stored until a new one is made. -/
theorem deleted_rows_stay_gone {s s' : State} {es : List Event} {i : ℕ} {env : Env} {t : Team}
    (h : s.Inv) (ht : t ∈ s.shared.teams) (hpc : s.threads[i]? = some (.deleteRows t.name t.id))
    (hdb : env.dbError = false)
    (hallowed : Guarded step (fun s e ↦ ¬Submits t.name s e) s (.run i env :: es))
    (hexec : exec step s (.run i env :: es) = some s') : s'.shared.NoRow t.name := by
  obtain ⟨u, hu, hrest⟩ := exec_cons_eq_some.mp hexec
  have hrows : u.shared.NoRow t.name := by
    have hadvance : advance s.shared env (.deleteRows t.name t.id) =
        some (s.shared.deleteTeam t.id, .zrem t.name true) := by simp [advance, hdb]
    have hstep : step s (.run i env) = some _ := Pool.run_eq_some hpc hadvance
    obtain rfl := Option.some_inj.mp (hstep.symm.trans hu)
    exact h.shared.noRow_deleteTeam ht
  have hlast := (hallowed.2 u hu).invariant (P := fun s ↦ s.Inv ∧ s.shared.NoRow t.name)
    (fun _ _ _ hs hallowed hstep ↦ ⟨hs.1.next hstep, noRow_next hs.2 hs.1 hallowed hstep⟩)
    ⟨h.next hu, hrows⟩ hrest
  exact hlast.2

/-- The name can come back without a new submission for it. -/
def CanRestore (name : String) (s : State) : Prop :=
  Breakable step (fun s e ↦ ¬Submits name s e) (fun s e ↦ ¬Restores name s e) s

theorem State.Clear.not_canRestore {s : State} {name : String} (hclear : s.Clear name) (h : s.Inv)
    (hname : NameLength name) : ¬CanRestore name s :=
  not_breakable (P := fun s ↦ s.Inv ∧ s.Clear name)
    (fun _ _ _ hs hallowed hstep ↦ ⟨hs.1.next hstep, hs.2.next hs.1 hname hallowed hstep⟩)
    (fun _ _ hs _ ↦ hs.2.not_restores hs.1 hname) ⟨h, hclear⟩

/-! ## Whatever leads to the name can restore it -/

/-- Every call succeeds, and the orchestrator reports the run as completed. -/
def Env.lucky : Env :=
  ⟨false, false, true, some "completed", ⟨"00000000-0000-0000-0000-000000000000", by decide⟩, "",
    ""⟩

section CanRestore

variable {s : State} {i : ℕ} {m : Shared} {pc pc' : Pc} {name : String}

theorem not_submits (hpc : s.threads[i]? = some pc) (h : ¬pc.Submits name s.shared .lucky) :
    ¬Submits name s (.run i .lucky) := by
  rintro ⟨q, hq, hsubmits⟩
  obtain rfl := Option.some_inj.mp (hpc.symm.trans hq)
  exact h hsubmits

theorem CanRestore.run (hpc : s.threads[i]? = some pc) (hs : ¬pc.Submits name s.shared .lucky)
    (hadvance : advance s.shared .lucky pc = some (m, pc'))
    (h : CanRestore name ⟨m, s.threads.set i pc'⟩) : CanRestore name s :=
  Breakable.later (not_submits hpc hs) (Pool.run_eq_some hpc hadvance) h

theorem CanRestore.call (k : Call) (h : CanRestore name ⟨s.shared, s.threads ++ [k.entry]⟩) :
    CanRestore name s :=
  Breakable.later (i := .start k) not_false rfl h

theorem CanRestore.now (hpc : s.threads[i]? = some pc) (hs : ¬pc.Submits name s.shared .lucky)
    (hadvance : advance s.shared .lucky pc = some (m, pc')) (h : s.shared.Restored name m) :
    CanRestore name s :=
  Breakable.now (not_submits hpc hs)
    (not_not.mpr ⟨_, Pool.run_eq_some hpc hadvance, h⟩)

theorem canRestore_hmset (hscores : name ∉ s.shared.scores)
    (hpc : s.threads[i]? = some (.hmset name)) : CanRestore name s :=
  .now hpc not_false rfl (.inr ⟨hscores, Finset.mem_insert_self _ _⟩)

theorem canRestore_zadd (hscores : name ∉ s.shared.scores)
    (hpc : s.threads[i]? = some (.zadd name)) : CanRestore name s := by
  by_cases hin : name ∈ s.shared.leaderboard
  · exact .run hpc not_false rfl (canRestore_hmset hscores (Pool.getElem?_set hpc))
  · exact .now hpc not_false rfl (.inl ⟨hin, Finset.mem_insert_self _ _⟩)

theorem canRestore_request {id : String} (hscores : name ∉ s.shared.scores) (hne : name ≠ "")
    (hpc : s.threads[i]? = some (.request id name)) : CanRestore name s := by
  have hserved : advance s.shared .lucky (.request id name) = some (s.shared, .zadd name) := by
    simp [advance, Env.lucky, hne]
  exact .run hpc not_false hserved (canRestore_zadd hscores (Pool.getElem?_set hpc))

theorem canRestore_finalizerReply {id : String} (hscores : name ∉ s.shared.scores)
    (hne : name ≠ "") (hpc : s.threads[i]? = some (.finalizerReply id name (some "completed"))) :
    CanRestore name s := by
  have hsend : (s.threads.set i (.finalizerSend id name))[i]? = some (.finalizerSend id name) :=
    Pool.getElem?_set hpc
  refine .run hpc not_false rfl (.run hsend not_false rfl ?_)
  exact canRestore_request hscores hne (Pool.getElem?_set hsend)

theorem canRestore_of_holds (hscores : name ∉ s.shared.scores) (hne : name ≠ "")
    (hpc : s.threads[i]? = some pc) (hholds : pc.Holds name) : CanRestore name s := by
  cases pc with
  | finalizerAsked id n =>
    obtain rfl : n = name := hholds
    exact .run hpc not_false rfl (canRestore_finalizerReply hscores hne (Pool.getElem?_set hpc))
  | finalizerReply id n report =>
    obtain ⟨rfl, rfl⟩ := hholds
    exact canRestore_finalizerReply hscores hne hpc
  | finalizerSend id n =>
    obtain rfl : n = name := hholds
    exact .run hpc not_false rfl (canRestore_request hscores hne (Pool.getElem?_set hpc))
  | request id n =>
    obtain rfl : n = name := hholds
    exact canRestore_request hscores hne hpc
  | zadd n =>
    obtain rfl : n = name := hholds
    exact canRestore_zadd hscores hpc
  | hmset n =>
    obtain rfl : n = name := hholds
    exact canRestore_hmset hscores hpc
  | _ => exact hholds.elim

/-- A row is in the table under its id only. -/
theorem Shared.Sound.row_eq {s : Shared} {row : Submission} (h : s.Sound)
    (hrow : row ∈ s.submissions) : s.row row.id = some row := by
  cases hfind : s.row row.id with
  | none =>
    have hne := List.find?_eq_none.mp hfind row hrow
    simp at hne
  | some row' =>
    obtain ⟨hmem, hid⟩ := Shared.row_mem hfind
    rw [List.inj_on_of_nodup_map h.nodup hmem hrow hid]

/-- A stored submission of the team can be benchmarked to the end. -/
theorem canRestore_of_row {row : Submission} (h : s.Inv) (hscores : name ∉ s.shared.scores)
    (hne : name ≠ "") (hrow : row ∈ s.shared.submissions)
    (hteam : s.shared.teamName row = some name) : CanRestore name s := by
  let testing := s.shared.setStatus row.id "testing"
  have hmem : { row with status := "testing" } ∈ testing.submissions := by
    refine List.mem_map.mpr ⟨row, hrow, ?_⟩
    simp
  have hsound : testing.Sound := h.shared.rewrites ⟨_, _, rfl, rfl⟩
  have hread : advance testing .lucky (.finalizerRead row.id) =
      some (testing, .finalizerAsked row.id name) := by
    have hfind : testing.row row.id = some { row with status := "testing" } := hsound.row_eq hmem
    have hname : testing.teamName { row with status := "testing" } = some name := hteam
    simp [advance, Env.database, Env.lucky, hfind, hname]
  have hset : (s.threads ++ [Pc.setStatus row.id "testing"])[s.threads.length]? =
      some (.setStatus row.id "testing") := by simp
  refine .call (.setStatus row.id "testing")
    (.run hset not_false rfl (.call (.finalizer row.id) ?_))
  have hround : ((s.threads ++ [Pc.setStatus row.id "testing"]).set s.threads.length (.done none) ++
      [Pc.finalizerRead row.id])[s.threads.length + 1]? = some (.finalizerRead row.id) := by simp
  refine CanRestore.run hround not_false hread ?_
  exact canRestore_of_holds hscores hne (Pool.getElem?_set hround) rfl

end CanRestore

/-! ## The theorem -/

theorem State.clear_of_not_canRestore {s : State} {name : String} (h : s.Inv)
    (hscores : name ∉ s.shared.scores) (hne : name ≠ "") (hsafe : ¬CanRestore name s) :
    s.Clear name := by
  constructor
  · intro row hrow hteam
    exact hsafe (canRestore_of_row h hscores hne hrow hteam)
  · intro pc hpc hholds
    obtain ⟨i, hi⟩ := List.getElem?_of_mem hpc
    exact hsafe (canRestore_of_holds hscores hne hi hholds)

/-- The last step of a DELETE takes the hash away and leaves everything else in flight. -/
theorem Deletes.step_eq {s s' : State} {e : Event} {name : String} (hdel : Deletes name s e)
    (hstep : step s e = some s') (h : s.Inv) :
    NameLength name ∧ name ∉ s'.shared.scores ∧ (s'.Clear name ↔ s.Clear name) := by
  cases e with
  | start k => exact hdel.elim
  | run i env =>
    obtain ⟨hredis, inDb, removed, hpc, hname⟩ := hdel
    obtain ⟨l, pc, r, m, pc', hthreads, hi, hadvance, rfl⟩ := Pool.next_run hstep
    obtain rfl : pc = .del name inDb removed := by simpa [hthreads, ← hi] using hpc
    rw [advance, if_neg (by simp [hredis])] at hadvance
    obtain ⟨rfl, rfl⟩ := Prod.mk.inj (Option.some_inj.mp hadvance)
    have hsound : inDb = true → NameLength name :=
      h.threads (.del name inDb removed) (by simp [hthreads])
    refine ⟨hname.elim hsound id, Finset.notMem_erase _ _, ?_⟩
    constructor
    · rintro ⟨hrows, hall⟩
      exact ⟨hrows, hthreads ▸ Pool.forall_run hall (fun _ ↦ id) not_false⟩
    · rintro ⟨hrows, hall⟩
      exact ⟨hrows, Pool.forall_run (hthreads ▸ hall) (fun _ ↦ id) not_false⟩

/-- **When a deleted team stays off the leaderboard.** From the DEL of a DELETE on, nothing adds the
team to the sorted set or makes its hash until a new submission for a team of that name, if and only
if no submission of such a team is stored and no thread holds the name when that step is taken. -/
theorem deleted_stays_off_iff {es : List Event} {s s' : State} {e : Event} {name : String}
    (hreach : exec step .initial es = some s) (hdel : Deletes name s e)
    (hstep : step s e = some s') :
    (∀ es', Guarded step (fun s e ↦ ¬Submits name s e) s' es' →
        Guarded step (fun s e ↦ ¬Restores name s e) s' es') ↔ s.Clear name := by
  have hinv : s.Inv := exec_invariant (fun _ _ _ h hstep ↦ State.Inv.next h hstep)
    State.inv_initial hreach
  obtain ⟨hname, hscores, hclear⟩ := hdel.step_eq hstep hinv
  have hne : name ≠ "" := by
    rintro rfl
    exact absurd hname.1 (by decide)
  rw [← hclear]
  constructor
  · intro hlaw
    refine State.clear_of_not_canRestore (hinv.next hstep) hscores hne ?_
    rintro ⟨es', hallowed, hbroken⟩
    exact hbroken (hlaw es' hallowed)
  · intro hclear es' hallowed
    by_contra hbroken
    exact hclear.not_canRestore (hinv.next hstep) hname ⟨es', hallowed, hbroken⟩

/-! ## A round of the finalizer across a deletion -/

/-- A handler is called and takes some steps. -/
def handle (k : Call) (i n : ℕ) : List Event := .start k :: List.replicate n (.run i .lucky)

def sampleId : String := "00000000-0000-0000-0000-000000000000"

/-- A team has a submission that is being benchmarked. -/
def benchmarked : List Event :=
  handle (.submit "alpha") 0 1 ++ handle (.setStatus sampleId "testing") 1 1

theorem deleted_stays_off_quiet : ∃ s s' : State,
    exec step .initial (benchmarked ++ handle (.deleteTeam "alpha") 2 3) = some s ∧
      step s (.run 2 .lucky) = some s' ∧
      ∀ es', Guarded step (fun s e ↦ ¬Submits "alpha" s e) s' es' →
        Guarded step (fun s e ↦ ¬Restores "alpha" s e) s' es' := by
  have hrun : ((exec step .initial (benchmarked ++ handle (.deleteTeam "alpha") 2 3)).any fun s ↦
      decide (s.shared.submissions = [] ∧
        s.threads = [.done none, .done none, .del "alpha" true false])) = true := by decide +kernel
  obtain ⟨s, hs, h⟩ := (Option.any_eq_true _ _).mp hrun
  obtain ⟨hrows, hthreads⟩ := of_decide_eq_true h
  have hpc : s.threads[2]? = some (.del "alpha" true false) := by rw [hthreads]; rfl
  have hstep : step s (.run 2 .lucky) = some _ := Pool.run_eq_some hpc rfl
  have hdel : Deletes "alpha" s (.run 2 .lucky) := ⟨rfl, true, false, hpc, .inl rfl⟩
  refine ⟨s, _, hs, hstep, (deleted_stays_off_iff hs hdel hstep).mpr ⟨?_, ?_⟩⟩
  · simp [Shared.NoRow, hrows]
  · simp [hthreads, Pc.Holds]

/-- The round has read the name before the deletion, and goes on after it. -/
theorem captured_name_restored : ∃ s s' s'' : State,
    exec step .initial (benchmarked ++ handle (.finalizer sampleId) 2 1 ++
        handle (.deleteTeam "alpha") 3 3) = some s ∧
      Deletes "alpha" s (.run 3 .lucky) ∧ step s (.run 3 .lucky) = some s' ∧
      s'.shared.teams = [] ∧ s'.shared.leaderboard = ∅ ∧ s'.shared.scores = ∅ ∧
      Guarded step (fun s e ↦ ¬Submits "alpha" s e) s' (List.replicate 6 (.run 2 .lucky)) ∧
      exec step s' (List.replicate 6 (.run 2 .lucky)) = some s'' ∧
      "alpha" ∈ s''.shared.leaderboard ∧ "alpha" ∈ s''.shared.scores := by
  have hrun : ((exec step .initial (benchmarked ++ handle (.finalizer sampleId) 2 1 ++
      handle (.deleteTeam "alpha") 3 3)).any fun s ↦
        decide (s.threads[3]? = some (.del "alpha" true false)) &&
        (step s (.run 3 .lucky)).any fun s' ↦
          decide (s'.shared.teams = [] ∧ s'.shared.leaderboard = ∅ ∧ s'.shared.scores = ∅ ∧
            Guarded step (fun s e ↦ ¬Submits "alpha" s e) s'
              (List.replicate 6 (.run 2 .lucky))) &&
          (exec step s' (List.replicate 6 (.run 2 .lucky))).any fun s'' ↦
            decide ("alpha" ∈ s''.shared.leaderboard ∧ "alpha" ∈ s''.shared.scores)) = true := by
    decide +kernel
  obtain ⟨s, hs, h⟩ := (Option.any_eq_true _ _).mp hrun
  obtain ⟨hpc, h⟩ := Bool.and_eq_true_iff.mp h
  obtain ⟨s', hs', h⟩ := (Option.any_eq_true _ _).mp h
  obtain ⟨hdeleted, h⟩ := Bool.and_eq_true_iff.mp h
  obtain ⟨s'', hs'', h⟩ := (Option.any_eq_true _ _).mp h
  obtain ⟨hteams, hleaderboard, hscores, hallowed⟩ := of_decide_eq_true hdeleted
  obtain ⟨hin, hhash⟩ := of_decide_eq_true h
  have hdel : Deletes "alpha" s (.run 3 .lucky) :=
    ⟨rfl, true, false, of_decide_eq_true hpc, .inl rfl⟩
  exact ⟨s, s', s'', hs, hdel, hs', hteams, hleaderboard, hscores, hallowed, hs'', hin, hhash⟩

end BenchmarkPlatform.Teams
