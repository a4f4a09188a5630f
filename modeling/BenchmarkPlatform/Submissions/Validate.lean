import BenchmarkPlatform.Submissions.Elf
import BenchmarkPlatform.Submissions.Upload
import BenchmarkPlatform.Submissions.ZipScan

/-!
# What an upload has to pass

POST submit looks at the fields of the form, at the name and the size of the file, at its first
bytes, at the program headers or the archive behind them, and has it scanned for malware. Only then
is it stored.

The parser of the form and the scanners are other programs: the form is what the parser makes of the
request, and a scanner is the status `std::system` returns. Requests are served one after the other,
since the server has one event loop and the handler waits for what it calls.
-/

namespace BenchmarkPlatform.Uploads

open Lib
open Teams (Team Uuid ValidName)
open Submissions (Accepts ElfError ScanError elfMagic gzipMagic isElfStaticallyLinked localSignature
  scanZipForBombs)

/-! ## The form -/

structure HttpFile where
  itemName : String
  fileName : String
  content : List UInt8

structure Form where
  parameters : String → Option String
  files : List HttpFile

/-- `team_id`, or else `team_name`; the empty string if neither is there. -/
def Form.team (form : Form) : String :=
  ((form.parameters "team_id") <|> form.parameters "team_name").getD ""

/-- The regular expression `[a-zA-Z0-9…]+`, with these characters besides. -/
def IsWord (besides word : List Char) : Prop :=
  word ≠ [] ∧ ∀ c ∈ word, c.isAlphanum ∨ c ∈ besides

instance (besides word : List Char) : Decidable (IsWord besides word) :=
  have : Decidable (∀ c ∈ word, c.isAlphanum ∨ c ∈ besides) := List.decidableBAll _ _
  inferInstanceAs (Decidable (_ ∧ _))

/-- The regular expression `^[a-zA-Z0-9_.+-]+@[a-zA-Z0-9-]+\.[a-zA-Z0-9-.]+$`. -/
def ValidEmail (email : String) : Prop :=
  ∃ user host domain, email.toList = user ++ '@' :: (host ++ '.' :: domain) ∧
    IsWord ['_', '.', '+', '-'] user ∧ IsWord ['-'] host ∧ IsWord ['-', '.'] domain

/-- The text up to a character, and the text behind it. -/
def cut (c : Char) : List Char → Option (List Char × List Char)
  | [] => none
  | d :: s => if d = c then some ([], s) else (cut c s).map fun parts ↦ (d :: parts.1, parts.2)

theorem cut_eq_some_iff {c : Char} {s xs ys : List Char} :
    cut c s = some (xs, ys) ↔ s = xs ++ c :: ys ∧ c ∉ xs := by
  induction s generalizing xs with
  | nil => simp [cut]
  | cons d s ih =>
    rw [cut]
    split_ifs with hd
    · subst hd
      rcases xs with _ | ⟨x, xs⟩
      · simp
      · refine iff_of_false (by simp) fun h ↦ h.2 ?_
        rw [(List.cons.inj h.1).1]
        exact List.mem_cons_self
    · rw [Option.map_eq_some_iff]
      constructor
      · rintro ⟨⟨xs', ys'⟩, hcut, hparts⟩
        obtain ⟨rfl, rfl⟩ := Prod.mk.inj hparts
        obtain ⟨rfl, hnot⟩ := ih.mp hcut
        refine ⟨rfl, fun hmem ↦ ?_⟩
        rcases List.mem_cons.mp hmem with h | h
        · exact hd h.symm
        · exact hnot h
      · rintro ⟨hs, hnot⟩
        rcases xs with _ | ⟨x, xs⟩
        · exact absurd (List.cons.inj hs).1 hd
        · obtain ⟨rfl, rfl⟩ := List.cons.inj hs
          exact ⟨(xs, ys), ih.mpr ⟨rfl, fun hmem ↦ hnot (List.mem_cons_of_mem _ hmem)⟩, rfl⟩

/-- The parts of an address: no part in front of a separator can contain it. -/
def emailParts (s : List Char) : Option (List Char × List Char × List Char) :=
  (cut '@' s).bind fun p ↦ (cut '.' p.2).map fun q ↦ (p.1, q.1, q.2)

theorem validEmail_iff (email : String) : ValidEmail email ↔
    ((emailParts email.toList).any fun p ↦ IsWord ['_', '.', '+', '-'] p.1 ∧
      IsWord ['-'] p.2.1 ∧ IsWord ['-', '.'] p.2.2) = true := by
  rw [Option.any_eq_true]
  constructor
  · rintro ⟨user, host, domain, hemail, huser, hhost, hdomain⟩
    have hat : '@' ∉ user := fun h ↦ absurd (huser.2 _ h) (by decide)
    have hdot : '.' ∉ host := fun h ↦ absurd (hhost.2 _ h) (by decide)
    have hrest : cut '.' (host ++ '.' :: domain) = some (host, domain) :=
      cut_eq_some_iff.mpr ⟨rfl, hdot⟩
    refine ⟨(user, host, domain), ?_, decide_eq_true ⟨huser, hhost, hdomain⟩⟩
    rw [emailParts, cut_eq_some_iff.mpr ⟨hemail, hat⟩, Option.bind_some, hrest]
    rfl
  · rintro ⟨parts, hparts, hwords⟩
    obtain ⟨⟨user, rest⟩, hat, hrest⟩ := Option.bind_eq_some_iff.mp hparts
    obtain ⟨⟨host, domain⟩, hdot, rfl⟩ := Option.map_eq_some_iff.mp hrest
    obtain ⟨hemail, -⟩ := cut_eq_some_iff.mp hat
    obtain ⟨rfl, -⟩ := cut_eq_some_iff.mp hdot
    exact ⟨user, host, domain, hemail, of_decide_eq_true hwords⟩

instance : DecidablePred ValidEmail := fun email ↦ decidable_of_iff _ (validEmail_iff email).symm

example : ValidEmail "team.one+hft@example-host.co.uk" := by decide +kernel

example : ¬ ValidEmail "team@localhost" := by decide +kernel

def languages : List String := ["cpp", "rust", "go"]

def extensions : List String := [".tar.gz", ".tgz", ".zip", ".elf", ""]

/-- The extension of a file name, in lower case. -/
def extension (filename : String) : String :=
  let ext := filename.toList.map Char.toLower
  if ".tar.gz".toList <:+ ext then ".tar.gz"
  else match cut '.' ext.reverse with
    | some (behind, _) => String.ofList ('.' :: behind.reverse)
    | none => ""

example : extension "Exchange.v2.TAR.GZ" = ".tar.gz" := by decide +kernel

/-- A form that has passed. -/
structure Submitted (maxUploadSize : ℤ) where
  team : String
  email : String
  language : String
  ext : String
  content : List UInt8
  validName_team : ValidName team
  validEmail_email : ValidEmail email
  language_mem : language ∈ languages
  ext_mem : ext ∈ extensions
  length_le : (content.length : ℤ) ≤ maxUploadSize

def fieldError (field message : String) : String :=
  "validation error on field \"" ++ field ++ "\": " ++ message

/-- The checks of the fields, in their order. -/
def Form.check (maxUploadSize : ℤ) (form : Form) : Except String (Submitted maxUploadSize) :=
  if form.team = "" then .error "team_id or team_name is required"
  else if hteam : ¬ ValidName form.team then
    .error (fieldError "team_name" "3-32 chars, alphanumeric and hyphens only")
  else match form.parameters "email" with
  | none => .error "email is required"
  | some email =>
    if hemail : ¬ ValidEmail email then .error (fieldError "email" "invalid email format")
    else match form.parameters "language" with
    | none => .error "language is required"
    | some language =>
      match form.files.find? fun f ↦ f.itemName = "file" with
      | none => .error "file is required"
      | some file =>
        if hlanguage : language ∉ languages then
          .error (fieldError "language" "unsupported language")
        else if hext : extension file.fileName ∉ extensions then
          .error (fieldError "file"
            "invalid file extension. Must be a zip archive or elf binary")
        else if hlength : (file.content.length : ℤ) > maxUploadSize then
          .error (fieldError "file" "file size exceeds maximum 500MB")
        else
          .ok
            { team := form.team
              email := email
              language := language
              ext := extension file.fileName
              content := file.content
              validName_team := not_not.mp hteam
              validEmail_email := not_not.mp hemail
              language_mem := not_not.mp hlanguage
              ext_mem := not_not.mp hext
              length_le := not_lt.mp hlength }

/-! ## The file -/

/-- The first bytes of a Mach-O binary, of either width and byte order. -/
def machMagics : List (List UInt8) :=
  [[0xFE, 0xED, 0xFA, 0xCE], [0xCE, 0xFA, 0xED, 0xFE], [0xFE, 0xED, 0xFA, 0xCF],
    [0xCF, 0xFA, 0xED, 0xFE]]

/-- The extension is that of a binary. -/
def BinaryExt (ext : String) : Prop := ext = ".elf" ∨ ext = ""

instance : DecidablePred BinaryExt := fun _ ↦ inferInstanceAs (Decidable (_ ∨ _))

def verifyMagicBytes (data : List UInt8) (ext : String) : Except String Unit :=
  if data.length < 4 then .error "File payload too small to identify format"
  else if data.take 2 = [0x4D, 0x5A] then
    .error "Validation Error: Windows PE executables (.exe) are not allowed"
  else if data.take 4 ∈ machMagics then
    .error "Validation Error: macOS Mach-O executables are not allowed"
  else if BinaryExt ext then
    if data.take 4 ≠ elfMagic then
      .error "400 Bad Request: Invalid Binary Format. Expected ELF header (0x7F454C46)"
    else .ok ()
  else if data.take 4 ≠ localSignature ∧ data.take 2 ≠ gzipMagic then
    .error ("400 Bad Request: Invalid Archive Format. " ++
      "Expected Gzip (0x1F8B) or ZIP (0x504B0304) header")
  else .ok ()

/-- What runs beside the handler. -/
structure Surroundings where
  /-- The rounds the scan of a zip archive is watched for. -/
  fuel : ℕ
  /-- How a `double` is printed. -/
  toString : ℚ → String
  disableClamav : Bool
  /-- What `std::system` returns for `clamdscan`, and for `clamscan`. -/
  clamdscan : ℤ
  clamscan : ℤ

/-- The checks of the bytes; `none` if they do not come to an end within the buffer. -/
def Surroundings.screen (around : Surroundings) (content : List UInt8) (ext : String) :
    Option (Except String Unit) :=
  match verifyMagicBytes content ext with
  | .error message => some (.error message)
  | .ok () =>
    if BinaryExt ext then
      (isElfStaticallyLinked content).map (Except.mapError ElfError.message)
    else
      (scanZipForBombs around.fuel content).map
        (Except.mapError (ScanError.message around.toString))

/-- The status of the scan that counts: the second scanner is a fallback for the first. -/
def Surroundings.scanRes (around : Surroundings) : ℤ :=
  if around.clamdscan ≠ 0 then around.clamscan else around.clamdscan

/-- `WEXITSTATUS` where `WIFEXITED`. -/
def exitStatus (scanRes : ℤ) : ℤ :=
  if scanRes % 128 = 0 then scanRes / 256 % 256 else -1

/-- The shell has not found the scanner. -/
def CmdNotFound (scanRes : ℤ) : Prop :=
  scanRes = 127 ∨ scanRes = 32512 ∨ exitStatus scanRes = 127

instance : DecidablePred CmdNotFound := fun _ ↦ inferInstanceAs (Decidable (_ ∨ _ ∨ _))

/-- A scanner has found malware, or has failed otherwise. -/
def Surroundings.Flags (around : Surroundings) : Prop :=
  around.disableClamav = false ∧ around.scanRes ≠ 0 ∧ ¬ CmdNotFound around.scanRes

instance (around : Surroundings) : Decidable around.Flags :=
  inferInstanceAs (Decidable (_ ∧ _ ∧ _))

/-- A binary none of whose program headers names an interpreter, or an archive that the scan for
bombs lets pass. -/
def Screened (content : List UInt8) : Prop :=
  content.take 4 = elfMagic ∧ isElfStaticallyLinked content = some (.ok ()) ∨
    (content.take 4 = localSignature ∨ content.take 2 = gzipMagic) ∧ Accepts content

/-- What the first bytes have to be. -/
theorem of_verifyMagicBytes {data : List UInt8} {ext : String}
    (h : verifyMagicBytes data ext = .ok ()) :
    if BinaryExt ext then data.take 4 = elfMagic
    else data.take 4 = localSignature ∨ data.take 2 = gzipMagic := by
  rw [verifyMagicBytes] at h
  split_ifs at h ⊢ with hshort hpe hmach hext hmagic harchive
  · exact not_not.mp hmagic
  · tauto

theorem Surroundings.screened_of_screen {around : Surroundings} {content : List UInt8}
    {ext : String} (h : around.screen content ext = some (.ok ())) : Screened content := by
  rw [screen] at h
  split at h
  · simp at h
  rename_i hmagic
  have hfirst := of_verifyMagicBytes hmagic
  have hok {ε : Type} {message : ε → String} {result : Except ε Unit}
      (hresult : result.mapError message = .ok ()) : result = .ok () := by
    rcases result with e | ⟨⟩
    · cases hresult
    · rfl
  split_ifs at h hfirst
  · obtain ⟨result, hresult, hmap⟩ := Option.map_eq_some_iff.mp h
    exact .inl ⟨hfirst, hok hmap ▸ hresult⟩
  · obtain ⟨result, hresult, hmap⟩ := Option.map_eq_some_iff.mp h
    exact .inr ⟨hfirst, around.fuel, hok hmap ▸ hresult⟩

/-! ## The request -/

/-- An upload that has passed all checks. -/
structure Accepted (maxUploadSize : ℤ) extends Upload where
  validEmail_email : ValidEmail email
  language_mem : language ∈ languages
  length_le : (content.length : ℤ) ≤ maxUploadSize
  screened : Screened content

def Form.validate (maxUploadSize : ℤ) (around : Surroundings) (form : Form) :
    Option (Except String (Accepted maxUploadSize)) :=
  match form.check maxUploadSize with
  | .error message => some (.error message)
  | .ok s =>
    match h : around.screen s.content s.ext with
    | none => none
    | some (.error message) => some (.error message)
    | some (.ok ()) =>
      if around.Flags then
        some (.error "Submission rejected: Malware detected by antivirus scanner")
      else
        some (.ok
          { team := s.team
            email := s.email
            language := s.language
            content := s.content
            validName_team := s.validName_team
            validEmail_email := s.validEmail_email
            language_mem := s.language_mem
            length_le := s.length_le
            screened := Surroundings.screened_of_screen h })

/-- A request, and what is around it. -/
structure Posted where
  /-- What the parser makes of the request, if it can. -/
  form : Option Form
  around : Surroundings
  env : Env

/-- POST submit: the answer, and what is left. -/
def Posted.handle (maxUploadSize : ℤ) (c : Posted) (w : World) :
    Option (Except String Response × World) :=
  match c.form with
  | none => some (.ok (.error 400 "failed to parse multipart form"), w)
  | some form =>
    match form.validate maxUploadSize c.around with
    | none => none
    | some (.error message) => some (.ok (.error 400 message), w)
    | some (.ok u) => some (outcome (submit c.env u.toUpload) w)

/-- One request after the other is served. -/
def World.post (maxUploadSize : ℤ) (w : World) (c : Posted) : Option World :=
  (c.handle maxUploadSize w).map Prod.snd

def Posted.Accepts (c : Posted) {maxUploadSize : ℤ} (u : Accepted maxUploadSize) : Prop :=
  ∃ form, c.form = some form ∧ form.validate maxUploadSize c.around = some (.ok u)

/-- A request is accepted, or it changes nothing. -/
theorem World.post_cases {maxUploadSize : ℤ} {w w' : World} {c : Posted}
    (h : w.post maxUploadSize c = some w') : w' = w ∨
      ∃ u : Accepted maxUploadSize, c.Accepts u ∧ w' = (outcome (submit c.env u.toUpload) w).2 := by
  obtain ⟨r, hr, rfl⟩ := Option.map_eq_some_iff.mp h
  rw [Posted.handle] at hr
  split at hr
  · obtain rfl := Option.some_inj.mp hr
    exact .inl rfl
  rename_i form hform
  split at hr
  · simp at hr
  · obtain rfl := Option.some_inj.mp hr
    exact .inl rfl
  · rename_i u hu
    obtain rfl := Option.some_inj.mp hr
    exact .inr ⟨u, ⟨form, hform, hu⟩, rfl⟩

end BenchmarkPlatform.Uploads
