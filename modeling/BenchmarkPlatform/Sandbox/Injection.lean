import BenchmarkPlatform.Lib.Shell
import BenchmarkPlatform.Sandbox.Service

/-!
# Request data in the commands

A command of the sandbox manager is a template with holes for request data. It is `Safe` when the
shell reads the data as literal characters of a word, so that the words and the commands are those
of the template.

The id of a build is checked before its first command, and an id of that form is read as it is. The
source URL is put between double quotes and not checked. A teardown uses its id as it comes: the id
has to be in the map of deployments, but it gets there when the build is enqueued, before the check.
-/

namespace BenchmarkPlatform.Sandbox

open Lib Shell

/-! ## The law -/

/-- The piece in the template of its command. -/
def Piece.symbols : Piece → List Sym
  | .text s => Shell.text s.toList
  | .data s => [.hole s.toList]

/-- The command with holes in the place of request data. -/
def template (cmd : List Piece) : List Sym := cmd.flatMap Piece.symbols

/-- The shell takes each piece of request data for literal characters, and reads the command as it
reads the template with these characters in the place of the holes. -/
structure Safe (cmd : List Piece) : Prop where
  literal : ∀ x ∈ reading (template cmd), x.2.isHole = true → x.1 = .literal
  reading_eq : reading (Shell.text (render cmd).toList) = (reading (template cmd)).flatMap fill

/-- The command that the thread hands to `exec_cmd` in its next step. -/
def Pc.command : Pc → Option (List Piece)
  | .exec req _ stage => some (req.command stage)
  | .teardownExec submissionId _ => some (teardownCommand submissionId)
  | _ => none

/-- A state of the service in local mode, when these requests were made in this order. -/
def Reaches (requests : List Request) (s : Service) : Prop :=
  ∃ is, is.filterMap PoolEvent.started = requests.map Subtype.val ∧
    exec (Service.step ⟨"local"⟩) Service.initial is = some s

/-- The call brings nothing into a command that the shell does not read as it is: the URL of a build
can be quoted, if its id passes the check, and the part of the id that a teardown uses is plain, if
there is a build with this id. -/
def Call.Harmless (requests : List Request) : Call → Prop
  | .enqueueBuild req => ValidId req.submissionId → Quotable req.sourceUrl.toList
  | .teardown submissionId =>
    (∃ req, (∃ r ∈ requests, r.val = .enqueueBuild req) ∧ req.submissionId = submissionId) →
      Plain (shortId submissionId).toList

/-! ## What a safe command is -/

theorem plug_template (cmd : List Piece) :
    plug (template cmd) = Shell.text (render cmd).toList := by
  induction cmd with
  | nil => rfl
  | cons piece cmd ih =>
    have hrender : (render (piece :: cmd)).toList = piece.render.toList ++ (render cmd).toList := by
      rw [render, List.map_cons, String.join_cons, String.toList_append]
      rfl
    have htext (t : List Char) : plug (Shell.text t) = Shell.text t := by
      induction t with
      | nil => rfl
      | cons c t ih => exact congrArg (Sym.char c :: ·) ih
    rw [hrender, template, List.flatMap_cons, plug, List.flatMap_append, Shell.text,
      List.map_append]
    refine congrArg₂ (· ++ ·) ?_ ih
    cases piece with
    | text s => exact htext s.toList
    | data s => exact List.append_nil _

theorem safe_iff {cmd : List Piece} : Safe cmd ↔ ReadsAs .start (template cmd) := by
  constructor
  · rintro ⟨hliteral, hread⟩
    exact ⟨hliteral, (congrArg (readFrom .start) (plug_template cmd)).trans hread⟩
  · rintro ⟨hliteral, hread⟩
    exact ⟨hliteral, (congrArg (readFrom .start) (plug_template cmd)).symm.trans hread⟩

/-- The words of a safe command are those of its template, with the data inside of them. -/
theorem Safe.words_eq {cmd : List Piece} (h : Safe cmd) :
    words (reading (Shell.text (render cmd).toList))
      = (words (reading (template cmd))).map (·.flatMap fill) :=
  plug_template cmd ▸ (safe_iff.mp h).words_eq

/-- The operators of a safe command are those of its template. -/
theorem Safe.operators_eq {cmd : List Piece} (h : Safe cmd) :
    operators (reading (Shell.text (render cmd).toList)) = operators (reading (template cmd)) :=
  plug_template cmd ▸ (safe_iff.mp h).operators_eq

/-! ## The commands -/

/-- What the source has of a piece. -/
def Piece.written : Piece → Option String
  | .text s => some s
  | .data _ => none

/-- What a request has brought into a piece. -/
def Piece.brought : Piece → Option String
  | .text _ => none
  | .data s => some s

/-- Each hole between these texts is reached inside a word. -/
def HolesInWords : State → List (Option String) → Prop
  | _, [] => True
  | s, some t :: ts => none ∈ ts → HolesInWords (after s (Shell.text t.toList)) ts
  | s, none :: ts => s = .inWord ∧ HolesInWords s ts

instance HolesInWords.decidable : ∀ s ts, Decidable (HolesInWords s ts)
  | _, [] => isTrue trivial
  | s, some t :: ts =>
    have : Decidable (HolesInWords (after s (Shell.text t.toList)) ts) :=
      HolesInWords.decidable _ ts
    inferInstanceAs (Decidable (_ → _))
  | s, none :: ts =>
    have : Decidable (HolesInWords s ts) := HolesInWords.decidable s ts
    inferInstanceAs (Decidable (_ ∧ _))

/-- A template without holes is a text. -/
theorem exists_template_eq_text {cmd : List Piece} (h : none ∉ cmd.map Piece.written) :
    ∃ t, template cmd = Shell.text t := by
  induction cmd with
  | nil => exact ⟨[], rfl⟩
  | cons piece cmd ih =>
    rw [List.map_cons, List.mem_cons, not_or] at h
    obtain ⟨t, ht⟩ := ih h.2
    cases piece with
    | text s =>
      refine ⟨s.toList ++ t, ?_⟩
      rw [template, List.flatMap_cons, ← template, ht, Shell.text, Shell.text, List.map_append]
      rfl
    | data s => exact absurd rfl h.1

/-- When all holes are inside words, plain data makes the command safe. -/
theorem readsAs_template {s : State} {cmd : List Piece}
    (hholes : HolesInWords s (cmd.map Piece.written))
    (hplain : ∀ p, .data p ∈ cmd → Plain p.toList) :
    ReadsAs s (template cmd) := by
  induction cmd generalizing s with
  | nil => exact readsAs_nil s
  | cons piece cmd ih =>
    have hplain' (p : String) (hp : .data p ∈ cmd) : Plain p.toList :=
      hplain p (List.mem_cons_of_mem _ hp)
    cases piece with
    | text t =>
      by_cases hmore : none ∈ cmd.map Piece.written
      · exact (readsAs_text rfl).mpr (ih (hholes hmore) hplain')
      · have hnone : none ∉ (Piece.text t :: cmd).map Piece.written := by
          rw [List.map_cons, List.mem_cons, not_or]
          exact ⟨nofun, hmore⟩
        obtain ⟨u, hu⟩ := exists_template_eq_text hnone
        exact hu ▸ readsAs_of_text s u
    | data p =>
      obtain ⟨rfl, hholes'⟩ := hholes
      exact (readsAs_inWord _ _).mpr ⟨hplain p List.mem_cons_self, ih hholes' hplain'⟩

theorem holesInWords_command (req : BuildAndDeployRequest) {stage : Stage} (h : stage ≠ .download) :
    HolesInWords .start ((req.command stage).map Piece.written) := by
  -- what is written does not depend on the request, but for the file behind the last hole
  have hclosed : ∀ stage ∈ [Stage.mkdir, .extract, .image, .network, .remove, .run, .port],
      HolesInWords .start
        ((BuildAndDeployRequest.command ⟨"", "", ""⟩ stage).map Piece.written) := by
    decide +kernel
  cases stage with
  | download => exact absurd rfl h
  | dockerfile => exact fun _ ↦ ⟨by decide +kernel, fun hmore ↦ absurd hmore List.not_mem_nil⟩
  | mkdir => exact hclosed .mkdir (by decide)
  | extract => exact hclosed .extract (by decide)
  | image => exact hclosed .image (by decide)
  | network => exact hclosed .network (by decide)
  | remove => exact hclosed .remove (by decide)
  | run => exact hclosed .run (by decide)
  | port => exact hclosed .port (by decide)

/-- All data of a command but the download is the id, or the begin of it. -/
theorem data_mem_command {req : BuildAndDeployRequest} {stage : Stage} (h : stage ≠ .download)
    {p : String} (hp : .data p ∈ req.command stage) :
    p = req.submissionId ∨ p = shortId req.submissionId := by
  have hdata : p ∈ (req.command stage).filterMap Piece.brought :=
    List.mem_filterMap.mpr ⟨_, hp, rfl⟩
  cases stage with
  | download => exact absurd rfl h
  | network => exact absurd hdata List.not_mem_nil
  | _ =>
    simp only [BuildAndDeployRequest.command, List.filterMap_cons, List.filterMap_nil,
      Piece.brought, List.mem_cons, List.not_mem_nil, or_false] at hdata
    tauto

theorem safe_download_iff (req : BuildAndDeployRequest) : Safe (req.command .download) ↔
    Plain req.submissionId.toList ∧ Quotable req.sourceUrl.toList := by
  have hfirst : after .start (Shell.text "curl -sfL -o /tmp/submissions/".toList) = .inWord := by
    decide +kernel
  have hsecond : after .inWord (Shell.text "/source.archive \"".toList) = .inDouble := by
    decide +kernel
  have hlast : ReadsAs .inDouble (template [.data req.sourceUrl, .text "\""]) ↔
      Quotable req.sourceUrl.toList :=
    (readsAs_inDouble _ _).trans (and_iff_left (readsAs_nil _))
  rw [safe_iff, ← hlast]
  exact (readsAs_text hfirst).trans ((readsAs_inWord _ _).trans
    (and_congr_right' (readsAs_text hsecond)))

theorem safe_teardown_iff (submissionId : String) :
    Safe (teardownCommand submissionId) ↔ Plain (shortId submissionId).toList := by
  have hfirst : after .start (Shell.text "docker rm -f contestant-".toList) = .inWord := by
    decide +kernel
  rw [safe_iff]
  exact (readsAs_text hfirst).trans ((readsAs_inWord _ _).trans (and_iff_left (readsAs_nil _)))

/-! ## Ids that pass the check -/

theorem not_special_of_valid {c : Char} (h : c.isAlphanum ∨ c = '_' ∨ c = '-') :
    c ∉ wordSpecials := by
  have hspecial : (wordSpecials.all fun d ↦ !(d.isAlphanum || d == '_' || d == '-')) = true := by
    decide
  intro hc
  have hnot := List.all_eq_true.mp hspecial c hc
  rcases h with h | rfl | rfl
  · simp [h] at hnot
  · exact absurd hnot (by decide)
  · exact absurd hnot (by decide)

theorem ValidId.plain {id : String} (h : ValidId id) : Plain id.toList :=
  fun c hc ↦ not_special_of_valid (h.2 c hc)

theorem ValidId.plain_shortId {id : String} (h : ValidId id) : Plain (shortId id).toList := by
  rw [shortId, String.toList_ofList]
  exact fun c hc ↦ not_special_of_valid (h.2 c (List.mem_of_mem_take hc))

/-- With an id that passes the check, only the URL can make a command unsafe. -/
theorem safe_command {req : BuildAndDeployRequest} (hvalid : ValidId req.submissionId)
    (hurl : Quotable req.sourceUrl.toList) (stage : Stage) : Safe (req.command stage) := by
  by_cases h : stage = .download
  · exact h ▸ (safe_download_iff req).mpr ⟨hvalid.plain, hurl⟩
  · refine safe_iff.mpr (readsAs_template (holesInWords_command req h) fun p hp ↦ ?_)
    rcases data_mem_command h hp with rfl | rfl
    · exact hvalid.plain
    · exact hvalid.plain_shortId

/-! ## Where the data in a state comes from -/

/-- The requests that wait, and the ids in the map, were in one of these calls. -/
structure Shared.From (calls : List Call) (s : Shared) : Prop where
  queue : ∀ req ∈ s.queue, .enqueueBuild req ∈ calls
  deployments : ∀ id obj, s.deployments id = some obj →
    ∃ req, .enqueueBuild req ∈ calls ∧ req.submissionId = id

/-- The data the thread works with was in one of these calls. The id of a build that executes
commands has passed the check; the id of a teardown that does was in a build. -/
def Pc.From (calls : List Call) : Pc → Prop
  | .enqueue req | .enqueuePush req | .build req => .enqueueBuild req ∈ calls
  | .exec req _ _ => .enqueueBuild req ∈ calls ∧ ValidId req.submissionId
  | .teardown submissionId => .teardown submissionId ∈ calls
  | .teardownExec submissionId _ => .teardown submissionId ∈ calls ∧
      ∃ req, .enqueueBuild req ∈ calls ∧ req.submissionId = submissionId
  | _ => True

structure Service.From (calls : List Call) (s : Service) : Prop where
  shared : s.shared.From calls
  threads : ∀ pc ∈ s.threads, pc.From calls

section From

variable {calls : List Call} {cfg : Config} {s t : Shared} {req : BuildAndDeployRequest} {obj : ℕ}

theorem Shared.From.store (h : s.From calls) (hreq : .enqueueBuild req ∈ calls)
    (status : BuildStatus) : (s.store req.submissionId status).From calls := by
  refine ⟨h.queue, fun id obj hobj ↦ ?_⟩
  rcases eq_or_ne id req.submissionId with rfl | hne
  · exact ⟨req, hreq, rfl⟩
  · exact h.deployments id obj ((Function.update_of_ne hne _ _).symm.trans hobj)

/-- What changes neither the queue nor the map. -/
theorem Shared.From.congr (h : s.From calls) (hqueue : t.queue = s.queue)
    (hdeployments : t.deployments = s.deployments) : t.From calls :=
  ⟨hqueue ▸ h.queue, hdeployments ▸ h.deployments⟩

theorem from_buildAndDeploy (hreq : .enqueueBuild req ∈ calls) :
    (buildAndDeploy cfg req obj).From calls := by
  by_cases hvalid : ValidId req.submissionId
  · rw [buildAndDeploy, if_neg (not_not_intro hvalid)]
    split_ifs
    · trivial
    · exact ⟨hreq, hvalid⟩
    · trivial
    · trivial
  · rw [buildAndDeploy, if_pos hvalid]
    trivial

theorem from_afterCommand (hreq : .enqueueBuild req ∈ calls) (hvalid : ValidId req.submissionId)
    (stage : Stage) (output : Except String String) :
    (afterCommand req obj stage output).From calls := by
  cases stage <;> cases output <;> first | exact ⟨hreq, hvalid⟩ | trivial

theorem from_afterCall (call : K8sCall) (created : Except String Bool) :
    (afterCall req obj call created).From calls := by
  cases call <;> rcases created with _ | _ | _ <;> trivial

theorem Shared.From.command (h : s.From calls) (stage : Stage) (output : Except String String) :
    (s.command req obj stage output).From calls := by
  cases stage <;> cases output <;> exact h.congr rfl rfl

/-- **The step lemma.** No step of a thread brings in data that was in none of the calls, and no
command is executed for an id that has not passed the check. -/
theorem advance_from {env : Env} {pc pc' : Pc} (hs : s.From calls) (hpc : pc.From calls)
    (h : advance cfg s env pc = some (t, pc')) : t.From calls ∧ pc'.From calls := by
  cases pc with
  | enqueue req =>
    obtain ⟨rfl, rfl⟩ := Option.some_inj.mp h
    exact ⟨hs.store hpc _, hpc⟩
  | enqueuePush req =>
    obtain ⟨rfl, rfl⟩ := Option.some_inj.mp h
    refine ⟨⟨fun r hr ↦ ?_, hs.deployments⟩, trivial⟩
    rcases List.mem_append.mp hr with hr' | hr'
    · exact hs.queue r hr'
    · exact List.mem_singleton.mp hr' ▸ hpc
  | idle =>
    rw [advance] at h
    split at h
    case h_1 => simp at h
    case h_2 req queue hqueue =>
      obtain ⟨rfl, rfl⟩ := Option.some_inj.mp h
      have hmem : ∀ r ∈ req :: queue, .enqueueBuild r ∈ calls := hqueue ▸ hs.queue
      -- the request taken from the queue was in a call
      exact ⟨⟨fun r hr ↦ hmem r (List.mem_cons_of_mem _ hr), hs.deployments⟩,
        hmem req List.mem_cons_self⟩
  | build req =>
    rw [advance] at h
    split at h
    all_goals obtain ⟨rfl, rfl⟩ := Option.some_inj.mp h
    · exact ⟨hs.congr rfl rfl, from_buildAndDeploy hpc⟩
    · exact ⟨hs.store hpc _, from_buildAndDeploy hpc⟩
  | exec req obj stage =>
    obtain ⟨rfl, rfl⟩ := Option.some_inj.mp h
    exact ⟨hs.command stage env.output, from_afterCommand hpc.1 hpc.2 stage env.output⟩
  | k8s req obj call =>
    obtain ⟨rfl, rfl⟩ := Option.some_inj.mp h
    refine ⟨?_, from_afterCall call env.created⟩
    split_ifs
    · exact hs.congr rfl rfl
    · exact hs
  | finish req obj endpointUrl namespaceName =>
    obtain ⟨rfl, rfl⟩ := Option.some_inj.mp h
    exact ⟨hs.congr rfl rfl, trivial⟩
  | fail obj errMsg =>
    obtain ⟨rfl, rfl⟩ := Option.some_inj.mp h
    exact ⟨hs.congr rfl rfl, trivial⟩
  | teardown id =>
    rw [advance] at h
    split at h
    case h_1 =>
      obtain ⟨rfl, rfl⟩ := Option.some_inj.mp h
      exact ⟨hs, trivial⟩
    case h_2 obj hobj =>
      obtain ⟨rfl, rfl⟩ := Option.some_inj.mp h
      refine ⟨hs, ?_⟩
      split_ifs
      -- the id was found in the map, so some build has stored it
      · exact ⟨hpc, hs.deployments id obj hobj⟩
      · trivial
  | teardownExec id obj =>
    obtain ⟨rfl, rfl⟩ := Option.some_inj.mp h
    exact ⟨hs, trivial⟩
  | teardownSet id obj =>
    obtain ⟨rfl, rfl⟩ := Option.some_inj.mp h
    exact ⟨hs.congr rfl rfl, trivial⟩
  | done result => simp [advance] at h

end From

theorem Service.From.next {calls : List Call} {cfg : Config} {s s' : Service} {e : ServiceEvent}
    (h : s.From calls) (he : ∀ call, e.started = some call → call ∈ calls)
    (hstep : s.step cfg e = some s') : s'.From calls := by
  cases e with
  | start call =>
    obtain rfl := Option.some_inj.mp hstep
    refine ⟨h.shared, Pool.forall_start h.threads ?_⟩
    cases call with
    | enqueueBuild req => exact he _ rfl
    | teardown id => exact he _ rfl
  | run i env =>
    obtain ⟨l, pc, r, t, pc', hthreads, -, hadvance, rfl⟩ := Pool.next_run hstep
    have hpcs : ∀ q ∈ l ++ pc :: r, q.From calls := hthreads ▸ h.threads
    obtain ⟨hshared, hpc'⟩ := advance_from h.shared (hpcs pc (by simp)) hadvance
    exact ⟨hshared, Pool.forall_run hpcs (fun _ hq ↦ hq) hpc'⟩

theorem Service.from_initial (calls : List Call) : Service.initial.From calls := by
  refine ⟨⟨fun _ hreq ↦ absurd hreq List.not_mem_nil, nofun⟩, fun pc hpc ↦ ?_⟩
  rcases List.mem_pair.mp hpc with rfl | rfl
  · trivial
  · trivial

/-- All data in a state that is reached was in one of the requests. -/
theorem Reaches.from {requests : List Request} {s : Service} (h : Reaches requests s) :
    s.From (requests.map Subtype.val) := by
  obtain ⟨is, hrequests, hexec⟩ := h
  have hallowed : ∀ e ∈ is, ∀ call, e.started = some call → call ∈ requests.map Subtype.val := by
    intro e he call hcall
    rw [← hrequests]
    exact List.mem_filterMap.mpr ⟨e, he, hcall⟩
  exact (guarded_of_forall_mem _ hallowed _).invariant
    (fun s e s' hs he hstep ↦ hs.next he hstep) (Service.from_initial _) hexec

/-! ## How a request gets into a command -/

section Reach

variable {requests : List Request} {s : Service}

/-- All requests can be there before anything else happens. -/
theorem reaches_start (requests : List Request) : Reaches requests
    ⟨Service.initial.shared, [.idle, .idle] ++ requests.map fun r ↦ r.val.entry⟩ := by
  refine ⟨(requests.map Subtype.val).map .start, ?_, ?_⟩
  · rw [List.filterMap_map]
    exact List.filterMap_some
  · have h : exec (Service.step ⟨"local"⟩) Service.initial
        ((requests.map Subtype.val).map PoolEvent.start) = _ := Pool.exec_start _ _
    rw [h, List.map_map]
    rfl

/-- A thread can take its next step. -/
theorem Reaches.run (h : Reaches requests s) {i : ℕ} {pc pc' : Pc} {t : Shared}
    (hpc : s.threads[i]? = some pc) (env : Env)
    (hadvance : advance ⟨"local"⟩ s.shared env pc = some (t, pc')) :
    Reaches requests ⟨t, s.threads.set i pc'⟩ := by
  obtain ⟨is, hrequests, hexec⟩ := h
  refine ⟨is ++ [.run i env], ?_, ?_⟩
  · rw [List.filterMap_append, hrequests]
    exact List.append_nil _
  · have hstep : s.step ⟨"local"⟩ (.run i env) = some ⟨t, s.threads.set i pc'⟩ :=
      Pool.run_eq_some hpc hadvance
    rw [exec_append, hexec, Option.bind_some, exec_cons, hstep]
    rfl

/-- The threads when all requests are there, behind the two workers. -/
theorem getElem?_start {i : ℕ} {r : Request} (h : requests[i]? = some r) :
    ([Pc.idle, .idle] ++ requests.map fun r ↦ r.val.entry)[i + 2]? = some r.val.entry := by
  rw [List.getElem?_append_right (Nat.le_add_left 2 i)]
  simp [h]

/-- The status of a build can be stored while all other threads are where they began. -/
theorem exists_reaches_stored {i : ℕ} {r : Request} {req : BuildAndDeployRequest}
    (hr : requests[i]? = some r) (hreq : r.val = .enqueueBuild req) :
    ∃ s, Reaches requests s ∧ s.shared.deployments req.submissionId = some 0 ∧
      s.shared.queue = [] ∧ s.threads[i + 2]? = some (.enqueuePush req) ∧
      ∀ j ≠ i + 2, s.threads[j]? = ([Pc.idle, .idle] ++ requests.map fun r ↦ r.val.entry)[j]? := by
  have hpc : ([Pc.idle, .idle] ++ requests.map fun r ↦ r.val.entry)[i + 2]?
      = some (.enqueue req) := by
    rw [getElem?_start hr, hreq]
    rfl
  have hreach := (reaches_start requests).run hpc ⟨.ok "", .ok true⟩ rfl
  exact ⟨_, hreach, Function.update_self _ _ _, rfl, Pool.getElem?_set hpc,
    fun j hj ↦ List.getElem?_set_ne hj.symm⟩

/-- What the handler accepts has a URL and a Dockerfile. -/
theorem BuildAndDeployRequest.of_validate {req : BuildAndDeployRequest}
    (h : req.validate = .ok ()) : req.sourceUrl ≠ "" ∧ dockerfileTemplate req.language ≠ "" := by
  rw [validate] at h
  split_ifs at h with hempty hlanguage
  rw [not_or, not_or] at hempty
  refine ⟨hempty.2.2, ?_⟩
  have htemplates : ∀ language ∈ ["go", "cpp", "rust"], dockerfileTemplate language ≠ "" := by
    decide +kernel
  apply htemplates
  simp only [List.mem_cons, List.not_mem_nil, or_false]
  tauto

/-- Every accepted build with a valid id can reach its download. -/
theorem exists_reaches_download {r : Request} {req : BuildAndDeployRequest} (hr : r ∈ requests)
    (hreq : r.val = .enqueueBuild req) (hvalid : ValidId req.submissionId) :
    ∃ s obj, Reaches requests s ∧ .exec req obj .download ∈ s.threads := by
  obtain ⟨i, hi⟩ := List.mem_iff_getElem?.mp hr
  obtain ⟨hurl, htemplate⟩ : req.sourceUrl ≠ "" ∧ dockerfileTemplate req.language ≠ "" := by
    have h := r.property
    rw [hreq] at h
    exact req.of_validate h
  let env : Env := ⟨.ok "", .ok true⟩
  obtain ⟨s, hstored, hdeployed, hqueue, hpush, hkeep⟩ := exists_reaches_stored hi hreq
  -- the request is queued, and the first worker takes it
  have hidle : s.threads[0]? = some .idle := hkeep 0 (by omega)
  have hqueued := hstored.run hpush env rfl
  have hidle' : (s.threads.set (i + 2) (.done none))[0]? = some Pc.idle := by
    rw [List.getElem?_set_ne (by omega), hidle]
  have htaken : advance ⟨"local"⟩ { s.shared with queue := s.shared.queue ++ [req] } env .idle
      = some (s.shared, .build req) := by
    have hshared : s.shared = { s.shared with queue := [] } := by rw [← hqueue]
    rw [hqueue]
    exact congrArg (fun t ↦ some (t, Pc.build req)) hshared.symm
  have hbuild := hqueued.run hidle' env htaken
  -- it goes from command to command
  have hlocal : buildAndDeploy ⟨"local"⟩ req 0 = .exec req 0 .mkdir := by
    rw [buildAndDeploy, if_neg (not_not_intro hvalid), if_pos rfl, if_neg htemplate]
  have hmkdir : advance ⟨"local"⟩ s.shared env (.build req)
      = some (s.shared.set 0 fun d ↦ { d with status := .building }, .exec req 0 .mkdir) := by
    rw [advance, hdeployed]
    exact congrArg (fun pc ↦ some (_, pc)) hlocal
  have hexec := hbuild.run (Pool.getElem?_set hidle') env hmkdir
  have hdownload (t : Shared) : advance ⟨"local"⟩ t env (.exec req 0 .mkdir)
      = some (t, .exec req 0 .download) := by
    rw [advance, afterCommand, if_neg hurl]
    rfl
  have hlast := hexec.run (Pool.getElem?_set (Pool.getElem?_set hidle')) env (hdownload _)
  exact ⟨_, 0, hlast, List.mem_of_getElem?
    (Pool.getElem?_set (Pool.getElem?_set (Pool.getElem?_set hidle')))⟩

/-- A teardown can find an id that is in an accepted build, whatever the id. -/
theorem exists_reaches_teardown {r r' : Request} {req : BuildAndDeployRequest} {id : String}
    (hr : r ∈ requests) (hteardown : r.val = .teardown id) (hr' : r' ∈ requests)
    (hreq : r'.val = .enqueueBuild req) (hid : req.submissionId = id) :
    ∃ s obj, Reaches requests s ∧ .teardownExec id obj ∈ s.threads := by
  obtain ⟨i, hi⟩ := List.mem_iff_getElem?.mp hr
  obtain ⟨j, hj⟩ := List.mem_iff_getElem?.mp hr'
  obtain ⟨s, hstored, hdeployed, -, -, hkeep⟩ := exists_reaches_stored hj hreq
  have hne : i + 2 ≠ j + 2 := by
    rintro hij
    obtain rfl : i = j := by omega
    obtain rfl := Option.some_inj.mp (hi.symm.trans hj)
    exact Call.noConfusion (hteardown.symm.trans hreq)
  have hpc : s.threads[i + 2]? = some (.teardown id) := by
    rw [hkeep _ hne, getElem?_start hi, hteardown]
    rfl
  -- the id is in the map, whether or not the build accepts it later
  have hfound : advance ⟨"local"⟩ s.shared ⟨.ok "", .ok true⟩ (.teardown id)
      = some (s.shared, .teardownExec id 0) := by
    rw [advance, ← hid, hdeployed]
    rfl
  exact ⟨_, 0, hstored.run hpc _ hfound, List.mem_of_getElem? (Pool.getElem?_set hpc)⟩

end Reach

/-! ## When no command is injected -/

/-- **No shell injection.** Whatever the threads do with a list of requests, every command they
execute is safe, just when each of the requests is harmless. -/
theorem commands_safe_iff (requests : List Request) :
    (∀ s, Reaches requests s → ∀ pc ∈ s.threads, ∀ cmd ∈ pc.command, Safe cmd) ↔
      ∀ r ∈ requests, r.val.Harmless requests := by
  -- left to right: the unsafe command is reached; right to left: the invariant of the data
  constructor
  · rintro hsafe ⟨call, haccepted⟩ hr
    cases call with
    | enqueueBuild req =>
      intro hvalid
      obtain ⟨s, obj, hreach, hpc⟩ := exists_reaches_download hr rfl hvalid
      exact ((safe_download_iff req).mp (hsafe s hreach _ hpc _ rfl)).2
    | teardown id =>
      rintro ⟨req, ⟨r', hr', hreq⟩, hid⟩
      obtain ⟨s, obj, hreach, hpc⟩ := exists_reaches_teardown hr rfl hr' hreq hid
      exact (safe_teardown_iff id).mp (hsafe s hreach _ hpc _ rfl)
  · intro hharmless s hreach pc hpc cmd hcmd
    have hfrom := hreach.from.threads pc hpc
    have hmem (call : Call) (h : call ∈ requests.map Subtype.val) : ∃ r ∈ requests, r.val = call :=
      List.mem_map.mp h
    cases pc with
    | exec req obj stage =>
      obtain rfl := Option.some_inj.mp hcmd
      obtain ⟨r, hr, hreq⟩ := hmem _ hfrom.1
      have hurl := hharmless r hr
      rw [hreq] at hurl
      exact safe_command hfrom.2 (hurl hfrom.2) stage
    | teardownExec id obj =>
      obtain rfl := Option.some_inj.mp hcmd
      obtain ⟨⟨r, hr, hteardown⟩, req, hreq, hid⟩ := And.imp_left (hmem _) hfrom
      have hplain := hharmless r hr
      rw [hteardown] at hplain
      exact (safe_teardown_iff id).mpr (hplain ⟨req, hmem _ hreq, hid⟩)
    | _ => exact absurd hcmd (by simp [Pc.command])

/-- A build whose URL closes the double quotes. -/
def closingRequest : Request :=
  ⟨.enqueueBuild ⟨"a", "go", "http://x/\"; touch /tmp/y; \""⟩, rfl⟩

/-- Its download is not safe. -/
theorem quoted_url_injected : ¬ ∀ requests s, Reaches requests s →
    ∀ pc ∈ s.threads, ∀ cmd ∈ pc.command, Safe cmd := by
  intro hsafe
  have hmem : closingRequest ∈ [closingRequest] := List.mem_cons_self
  obtain ⟨s, obj, hreach, hpc⟩ := exists_reaches_download hmem rfl (by decide +kernel)
  have hquotable := ((safe_download_iff _).mp (hsafe _ s hreach _ hpc _ rfl)).2
  exact absurd hquotable (by decide +kernel)

end BenchmarkPlatform.Sandbox
