import BenchmarkPlatform.Sandbox.Injection
import BenchmarkPlatform.Submissions.Gate

/-!
# From uploads to builds

The sandbox manager puts what it is sent into commands of a shell. What the handler of POST submit
sends it is an id it has made, a language it has checked and a URL it has composed: none of this is
refused, and no command comes out of it that the shell reads in another way than it is meant.

The requests travel as messages, of which some may be lost and which may arrive in any order.
Teardowns of any ids may come from elsewhere.
-/

namespace BenchmarkPlatform.Uploads

open Lib Shell
open Teams (LooksLikeUuid isHex)
open Sandbox (BuildAndDeployRequest Pc Reaches Safe ValidId buildAndDeploy)

/-- The message as the sandbox manager reads it. -/
def BuildRequest.toSandbox (b : BuildRequest) : BuildAndDeployRequest :=
  ⟨b.submissionId, b.language, b.sourceUrl⟩

/-! ## What is made up -/

theorem isAlphanum_of_isHex {c : Char} (h : isHex c = true) : c.isAlphanum = true := by
  have hcases : c.isDigit = true ∨ ('a' ≤ c ∧ c ≤ 'f') ∨ ('A' ≤ c ∧ c ≤ 'F') := by
    simpa [isHex, or_assoc] using h
  rcases hcases with hdigit | ⟨hfirst, hlast⟩ | ⟨hfirst, hlast⟩
  · exact Bool.or_eq_true_iff.mpr (.inr hdigit)
  · have hlower : c.isLower = true :=
      Bool.and_eq_true_iff.mpr ⟨decide_eq_true hfirst,
        decide_eq_true (Char.le_trans hlast (by decide : 'f' ≤ 'z'))⟩
    exact Bool.or_eq_true_iff.mpr (.inl (Bool.or_eq_true_iff.mpr (.inr hlower)))
  · have hupper : c.isUpper = true :=
      decide_eq_true ⟨hfirst, Char.le_trans hlast (by decide : 'F' ≤ 'Z')⟩
    exact Bool.or_eq_true_iff.mpr (.inl (Bool.or_eq_true_iff.mpr (.inl hupper)))

theorem validId_of_looksLikeUuid {id : String} (h : LooksLikeUuid id) : ValidId id := by
  constructor
  · rintro rfl
    exact absurd h (by decide)
  · intro c hc
    have hmem : (if isHex c then '0' else c) ∈ "00000000-0000-0000-0000-000000000000".toList :=
      h ▸ List.mem_map_of_mem hc
    by_cases hhex : isHex c
    · exact .inl (isAlphanum_of_isHex hhex)
    · rw [if_neg hhex] at hmem
      have hchars : ("00000000-0000-0000-0000-000000000000".toList.all
          fun c ↦ c.isAlphanum || c == '-') = true := by
        decide +kernel
      have hc := List.all_eq_true.mp hchars c hmem
      rw [Bool.or_eq_true, beq_iff_eq] at hc
      exact hc.imp_right .inr

theorem Env.toList_submissionUrl (env : Env) (id : String) : (env.submissionUrl id).toList =
    "http://localhost:9000/".toList ++ env.bucket.toList ++ "/".toList ++ id.toList ++
      "/source.tar.gz".toList := by
  have hconcat (a b c d e : String) : (a ++ b ++ c ++ d ++ e).toList
      = a.toList ++ b.toList ++ c.toList ++ d.toList ++ e.toList := by
    simp only [String.toList_append]
  exact hconcat _ _ _ _ _

theorem Env.submissionUrl_ne (env : Env) (id : String) : env.submissionUrl id ≠ "" := by
  intro h
  have hnil := env.toList_submissionUrl id
  rw [h] at hnil
  exact absurd (List.append_eq_nil_iff.mp hnil.symm).2 (by decide)

theorem Env.quotable_submissionUrl {env : Env} (hid : LooksLikeUuid env.submissionId)
    (hbucket : Quotable env.bucket.toList) :
    Quotable (env.submissionUrl env.submissionId).toList := by
  have hplain := (validId_of_looksLikeUuid hid).plain.quotable
  have hhost : Quotable "http://localhost:9000/".toList := by decide +kernel
  have hslash : Quotable "/".toList := by decide +kernel
  have hname : Quotable "/source.tar.gz".toList := by decide +kernel
  have hurl := (hhost.append hbucket).append hslash
  exact env.toList_submissionUrl _ ▸ (hurl.append hplain).append hname

/-! ## What the sandbox manager is sent -/

section

variable {seeded : List Teams.Team} {maxUploadSize : ℤ} {calls : List Posted} {w : World}

/-- A build was asked for by an accepted request. -/
theorem exists_of_mem_builds (h : w.Sound seeded maxUploadSize (· ∈ calls)) {b : BuildRequest}
    (hb : b ∈ w.builds) : ∃ c ∈ calls, ∃ u : Accepted maxUploadSize,
      b = ⟨c.env.submissionId, u.language, c.env.submissionUrl c.env.submissionId⟩ := by
  obtain ⟨row, hrow, rfl⟩ := List.mem_map.mp (h.builds.subset hb)
  obtain ⟨c, hc, u, -, t, -, -, rfl⟩ := h.db.row row hrow
  exact ⟨c, hc, u, rfl⟩

theorem validate_of_mem_languages {req : BuildAndDeployRequest} (hid : req.submissionId ≠ "")
    (hurl : req.sourceUrl ≠ "") (hlanguage : req.language ∈ languages) :
    req.validate = .ok () := by
  have hne : ∀ language ∈ languages, language ≠ "" := by decide
  have hempty : ¬ (req.submissionId = "" ∨ req.language = "" ∨ req.sourceUrl = "") := by
    rintro (h | h | h)
    · exact hid h
    · exact hne _ hlanguage h
    · exact hurl h
  have hsupported : ¬ (req.language ≠ "go" ∧ req.language ≠ "cpp" ∧ req.language ≠ "rust") := by
    simp only [languages, List.mem_cons, List.not_mem_nil, or_false] at hlanguage
    tauto
  rw [BuildAndDeployRequest.validate, if_neg hempty, if_neg hsupported]

/-- What a build has to be, for the sandbox manager to take it and to read it as it is meant. -/
structure BuildRequest.Buildable (b : BuildRequest) : Prop where
  validate : b.toSandbox.validate = .ok ()
  validId : ValidId b.submissionId
  quotable : Quotable b.sourceUrl.toList

theorem buildable_of_mem_builds (h : w.Sound seeded maxUploadSize (· ∈ calls))
    (huuid : ∀ c ∈ calls, LooksLikeUuid c.env.submissionId)
    (hbucket : ∀ c ∈ calls, Quotable c.env.bucket.toList) {b : BuildRequest} (hb : b ∈ w.builds) :
    b.Buildable := by
  obtain ⟨c, hc, u, rfl⟩ := exists_of_mem_builds h hb
  have hvalid := validId_of_looksLikeUuid (huuid c hc)
  exact ⟨validate_of_mem_languages hvalid.1 (c.env.submissionUrl_ne _) u.language_mem, hvalid,
    Env.quotable_submissionUrl (huuid c hc) (hbucket c hc)⟩

end

/-! ## What the sandbox manager does -/

/-- The builds among the requests were asked for. -/
def Fed (builds : List BuildRequest) (requests : List Sandbox.Request) : Prop :=
  ∀ r ∈ requests, ∀ req, r.val = .enqueueBuild req → ∃ b ∈ builds, b.toSandbox = req


/-- The builds of buildable requests are not refused, and their commands are safe. -/
theorem safe_of_buildable {requests : List Sandbox.Request}
    (h : ∀ r ∈ requests, ∀ req, r.val = .enqueueBuild req →
      ValidId req.submissionId ∧ Quotable req.sourceUrl.toList)
    {s : Sandbox.Service} (hreach : Reaches requests s) {pc : Pc} (hpc : pc ∈ s.threads) :
    (∀ cmd ∈ pc.command, Safe cmd) ∧
      ∀ req, pc = .build req → ∀ obj, buildAndDeploy ⟨"local"⟩ req obj = .exec req obj .mkdir := by
  have hfrom := hreach.from.threads pc hpc
  have hrequest {req : BuildAndDeployRequest}
      (hmem : .enqueueBuild req ∈ requests.map Subtype.val) : ∃ r ∈ requests,
        r.val = .enqueueBuild req ∧ ValidId req.submissionId ∧ Quotable req.sourceUrl.toList := by
    obtain ⟨r, hr, hreq⟩ := List.mem_map.mp hmem
    exact ⟨r, hr, hreq, h r hr req hreq⟩
  constructor
  · intro cmd hcmd
    cases pc with
    | exec req obj stage =>
      obtain rfl := Option.some_inj.mp hcmd
      obtain ⟨-, -, -, -, hurl⟩ := hrequest hfrom.1
      exact Sandbox.safe_command hfrom.2 hurl stage
    | teardownExec id obj =>
      -- the id is that of a build
      obtain rfl := Option.some_inj.mp hcmd
      obtain ⟨-, req, hreq, rfl⟩ := hfrom
      obtain ⟨-, -, -, hvalid, -⟩ := hrequest hreq
      exact (Sandbox.safe_teardown_iff _).mpr hvalid.plain_shortId
    | _ => exact absurd hcmd (by simp [Pc.command])
  · rintro req rfl obj
    obtain ⟨r, -, hreq, hvalid, -⟩ := hrequest hfrom
    have haccepted : req.validate = .ok () := by
      have hr := r.2
      rw [hreq] at hr
      exact hr
    rw [buildAndDeploy, if_neg (not_not.mpr hvalid), if_pos rfl,
      if_neg (BuildAndDeployRequest.of_validate haccepted).2]

/-- **Uploads are built as they are meant.** After any run of requests, the sandbox manager takes
each build it is sent. Whatever its threads do with some of these and with any teardowns, every
command is safe, and no build is refused when a worker gets to it. The ids are UUIDs, and the name
of the bucket can be quoted. -/
theorem uploads_build_safely (maxUploadSize : ℤ) {calls : List Posted} {w : World}
    (h : exec (World.post maxUploadSize) .empty calls = some w)
    (huuid : ∀ c ∈ calls, LooksLikeUuid c.env.submissionId)
    (hbucket : ∀ c ∈ calls, Quotable c.env.bucket.toList) :
    (∀ b ∈ w.builds, b.toSandbox.validate = .ok ()) ∧
      ∀ requests, Fed w.builds requests → ∀ s, Reaches requests s → ∀ pc ∈ s.threads,
        (∀ cmd ∈ pc.command, Safe cmd) ∧
        ∀ req, pc = .build req → ∀ obj,
          buildAndDeploy ⟨"local"⟩ req obj = .exec req obj .mkdir := by
  have hsound := World.installed_empty.sound_of_exec h
  have hbuildable (b : BuildRequest) (hb : b ∈ w.builds) : b.Buildable :=
    buildable_of_mem_builds hsound huuid hbucket hb
  refine ⟨fun b hb ↦ (hbuildable b hb).validate, fun requests hfed s hreach pc hpc ↦ ?_⟩
  refine safe_of_buildable (fun r hr req hreq ↦ ?_) hreach hpc
  obtain ⟨b, hb, rfl⟩ := hfed r hr req hreq
  exact ⟨(hbuildable b hb).validId, (hbuildable b hb).quotable⟩

/-- One upload, one build and one teardown. -/
theorem uploads_build_safely_sampleCall : ∃ w,
    exec (World.post 524288000) .empty [sampleCall "exchange" staticBinary] = some w ∧
    w.builds ≠ [] ∧ (∀ b ∈ w.builds, b.toSandbox.validate = .ok ()) ∧
      ∀ requests, Fed w.builds requests → ∀ s, Reaches requests s → ∀ pc ∈ s.threads,
        (∀ cmd ∈ pc.command, Safe cmd) ∧
        ∀ req, pc = .build req → ∀ obj,
          buildAndDeploy ⟨"local"⟩ req obj = .exec req obj .mkdir := by
  have hbuilds : ((exec (World.post 524288000) .empty
      [sampleCall "exchange" staticBinary]).any fun w ↦ w.builds ≠ []) = true := by
    decide +kernel
  obtain ⟨w, hexec, hne⟩ := (Option.any_eq_true _ _).mp hbuilds
  refine ⟨w, hexec, of_decide_eq_true hne, uploads_build_safely 524288000 hexec ?_ ?_⟩
  · intro c hc
    rw [List.mem_singleton.mp hc]
    decide +kernel
  · intro c hc
    rw [List.mem_singleton.mp hc]
    decide +kernel

end BenchmarkPlatform.Uploads
