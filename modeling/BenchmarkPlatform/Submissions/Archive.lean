import BenchmarkPlatform.Submissions.ZipScan
import Mathlib.Data.List.Induction
import Mathlib.Data.List.TakeWhile

/-!
# Archives and what the scan sees of them

A ZIP file is a run of entries and a central directory. An entry begins with a local header, which
has its sizes, or zeros in their place when they were not known yet; then the sizes are in a
descriptor behind the data. A gzip file is a run of members, each with its size modulo `2 ^ 32` at
its end.

The scan reads local headers and never a descriptor. Over entries that have their sizes in the
header and nothing behind the data it keeps in step (`accepts_iff_passes_readable`). The first entry
of another kind takes it to bytes that are not the next header: as a rule it ends there
(`accepts_iff_of_ends`), and where those bytes look like a local header all the same, what it makes
of them is an accident of the data. Of a gzip file it reads the last member only. `Archive.Visible`
is the condition under which a file that the scan accepts is as small as it should be.
-/

namespace BenchmarkPlatform.Submissions

open Lib

/-! ## ZIP files -/

/-- How the sizes are written behind the data: with a signature or without, and in eight bytes each
when the entry is a ZIP64 one. -/
structure Descriptor where
  signed : Bool
  wide : Bool
  deriving DecidableEq, Repr

def descriptorSignature : List UInt8 := [0x50, 0x4B, 0x07, 0x08]

def Descriptor.width (d : Descriptor) : ℕ :=
  if d.wide then 8 else 4

def Descriptor.bytes (d : Descriptor) (crc compressedSize uncompressedSize : ℕ) : List UInt8 :=
  (if d.signed then descriptorSignature else []) ++
    record [(4, crc), (d.width, compressedSize), (d.width, uncompressedSize)]

/-- A file in a ZIP file. `data` is what is stored of it, compressed or not, and `uncompressedSize`
is the length of the file. -/
structure Entry where
  version : UInt16
  flags : UInt16
  method : UInt16
  time : UInt16
  date : UInt16
  crc : UInt32
  name : List UInt8
  extra : List UInt8
  data : List UInt8
  uncompressedSize : ℕ
  sizesInHeader : Bool
  descriptor : Option Descriptor
  length_name : name.length < 2 ^ 16
  length_extra : extra.length < 2 ^ 16
  /-- General-purpose bit 3 announces a descriptor. -/
  descriptor_iff : flags.toNat.testBit 3 = descriptor.isSome
  sizes_somewhere : sizesInHeader = true ∨ descriptor.isSome = true
  header_fits : sizesInHeader = true → data.length < 2 ^ 32 ∧ uncompressedSize < 2 ^ 32
  descriptor_fits : ∀ d ∈ descriptor,
    data.length < 256 ^ d.width ∧ uncompressedSize < 256 ^ d.width
  /-- A file that is stored as it is, and not encrypted. -/
  stored : method = 0 → flags.toNat.testBit 0 = false → uncompressedSize = data.length

namespace Entry

variable (e : Entry)

/-- A size or checksum in the local header, or zero in its place. -/
def inHeader (n : ℕ) : ℕ :=
  if e.sizesInHeader then n else 0

def headerFields : List (ℕ × ℕ) :=
  [(2, e.version.toNat), (2, e.flags.toNat), (2, e.method.toNat), (2, e.time.toNat),
    (2, e.date.toNat), (4, e.inHeader e.crc.toNat), (4, e.inHeader e.data.length),
    (4, e.inHeader e.uncompressedSize), (2, e.name.length), (2, e.extra.length)]

def trailer : List UInt8 :=
  e.descriptor.elim [] fun d ↦ d.bytes e.crc.toNat e.data.length e.uncompressedSize

def bytes : List UInt8 :=
  localSignature ++ (record e.headerFields ++ (e.name ++ (e.extra ++ (e.data ++ e.trailer))))

/-- The sizes are in the local header, nothing is behind the data, and the length of the entry is a
32-bit number. -/
def Plain : Prop :=
  e.sizesInHeader = true ∧ e.descriptor = none ∧ e.bytes.length < 2 ^ 32

instance : DecidablePred Plain := fun _ ↦ inferInstanceAs (Decidable (_ ∧ _ ∧ _))

/-- What the scan reads of the local header. -/
def localHeader : LocalHeader where
  compressedSize := e.inHeader e.data.length
  uncompressedSize := e.inHeader e.uncompressedSize
  filenameLen := e.name.length
  extraLen := e.extra.length

/-- What is behind the length that the local header declares. -/
def unread : List UInt8 :=
  e.bytes.drop e.localHeader.stride

/-- It does not look like the next local header. -/
def Ends : Prop :=
  e.unread.take 4 ≠ localSignature

instance : DecidablePred Ends := fun _ ↦ inferInstanceAs (Decidable (_ ≠ _))

end Entry

/-- What a central directory begins with: the header of an entry, the end record, the ZIP64 end
record, or the record before an encrypted directory. -/
def directorySignatures : List (List UInt8) :=
  [[0x50, 0x4B, 0x01, 0x02], [0x50, 0x4B, 0x05, 0x06], [0x50, 0x4B, 0x06, 0x06],
    [0x50, 0x4B, 0x06, 0x08]]

structure ZipFile where
  entries : List Entry
  directory : List UInt8
  directory_start : ∃ signature ∈ directorySignatures, signature <+: directory

def entriesBytes (es : List Entry) : List UInt8 :=
  es.flatMap Entry.bytes

def ZipFile.bytes (z : ZipFile) : List UInt8 :=
  entriesBytes z.entries ++ z.directory

def totalUncompressed (es : List Entry) : ℕ :=
  (es.map Entry.uncompressedSize).sum

def totalCompressed (es : List Entry) : ℕ :=
  (es.map fun e ↦ e.data.length).sum

/-- The entries before the first that is not plain. -/
def ZipFile.readable (z : ZipFile) : List Entry :=
  z.entries.takeWhile fun e ↦ decide e.Plain

/-- The first entry that is not plain. -/
def ZipFile.misread (z : ZipFile) : Option Entry :=
  z.entries.find? fun e ↦ decide ¬ e.Plain

/-- The entries whose local headers are where the walk looks for them. -/
def ZipFile.shown (z : ZipFile) : List Entry :=
  z.readable ++ z.misread.toList

/-- The sizes in these headers. -/
def ZipFile.shownUncompressed (z : ZipFile) : ℕ :=
  (z.shown.map fun e ↦ e.inHeader e.uncompressedSize).sum

def ZipFile.shownCompressed (z : ZipFile) : ℕ :=
  (z.shown.map fun e ↦ e.inHeader e.data.length).sum

/-- The sizes in these headers are out of proportion: `uint64_t` numbers, more than five to one. -/
def ZipFile.Dense (z : ZipFile) : Prop :=
  0 < z.shownCompressed % 2 ^ 64 ∧ 5 * (z.shownCompressed % 2 ^ 64) < z.shownUncompressed ∧
    1024 * 1024 < z.shownUncompressed

/-- Behind the first entry that is not plain, no header seems to follow. -/
def ZipFile.Ends (z : ZipFile) : Prop :=
  ∀ e ∈ z.misread, e.Ends

/-- Where a walk is that has kept in step with these entries. -/
def seen (es : List Entry) : Walk where
  offset := (entriesBytes es).length
  totalUncompressed := totalUncompressed es
  totalCompressed := totalCompressed es % 2 ^ 64

/-! ## gzip files -/

/-- `optional` are the fields that the flags announce. -/
structure GzipMember where
  flags : UInt8
  mtime : UInt32
  extraFlags : UInt8
  os : UInt8
  optional : List UInt8
  deflated : List UInt8
  crc : UInt32
  uncompressedSize : ℕ
  deriving DecidableEq, Repr

/-- The fields that do not depend on the size. -/
def GzipMember.body (m : GzipMember) : List UInt8 :=
  gzipMagic ++ ([8, m.flags] ++ (toBytes 4 m.mtime.toNat ++ ([m.extraFlags, m.os] ++
    (m.optional ++ (m.deflated ++ toBytes 4 m.crc.toNat)))))

/-- The size is written in four bytes, so modulo `2 ^ 32`. -/
def GzipMember.bytes (m : GzipMember) : List UInt8 :=
  m.body ++ toBytes 4 m.uncompressedSize

structure GzipFile where
  members : List GzipMember
  nonempty : members ≠ []

def GzipFile.bytes (g : GzipFile) : List UInt8 :=
  g.members.flatMap GzipMember.bytes

def GzipFile.last (g : GzipFile) : GzipMember :=
  g.members.getLast g.nonempty

/-! ## The condition -/

inductive Archive
  | zip (z : ZipFile)
  | gzip (g : GzipFile)

def Archive.bytes : Archive → List UInt8
  | .zip z => z.bytes
  | .gzip g => g.bytes

/-- The length of all that is in the archive. -/
def Archive.total : Archive → ℕ
  | .zip z => totalUncompressed z.entries
  | .gzip g => (g.members.map GzipMember.uncompressedSize).sum

/-- The archive is small, or its size shows where the scan looks: each entry of a ZIP file is plain,
or the plain ones at its front and the header of the next are too much already; the last member of a
gzip file says that it is too large. -/
def Archive.Visible : Archive → Prop
  | .zip z => totalUncompressed z.entries ≤ maxUncompressedSize ∨ (∀ e ∈ z.entries, e.Plain) ∨
      maxUncompressedSize < z.shownUncompressed ∨ z.Ends ∧ z.Dense
  | .gzip g => (g.members.map GzipMember.uncompressedSize).sum ≤ maxUncompressedSize ∨
      maxUncompressedSize < g.last.uncompressedSize % 2 ^ 32

/-- Bytes of the archive that are not a header are not taken for one. -/
def Archive.Ends : Archive → Prop
  | .zip z => z.Ends
  | .gzip _ => True

/-! ## The local header of an entry -/

section Entry

variable (e : Entry) (xs ys : List UInt8)

theorem Entry.inHeader_lt {n : ℕ} (h : e.sizesInHeader = true → n < 2 ^ 32) :
    e.inHeader n < 2 ^ 32 := by
  rw [Entry.inHeader]
  split
  case isTrue hsizes => exact h hsizes
  case isFalse => exact Nat.two_pow_pos 32

theorem Entry.length_bytes : e.bytes.length =
    30 + e.name.length + e.extra.length + e.data.length + e.trailer.length := by
  simp only [Entry.bytes, List.length_append, length_record, Entry.headerFields, localSignature,
    List.map_cons, List.map_nil, List.sum_cons, List.sum_nil, List.length_cons, List.length_nil]
  omega

/-- A field of the local header is read back from its place in the file. -/
theorem Entry.field_bytes (before : List (ℕ × ℕ)) {after : List (ℕ × ℕ)} {width n : ℕ}
    (h : e.headerFields = before ++ (width, n) :: after) :
    field (xs ++ (e.bytes ++ ys)) (xs.length + (4 + (before.map Prod.fst).sum)) width
      = n % 256 ^ width := by
  rw [field_append_right, Entry.bytes, List.append_assoc, List.append_assoc,
    show (4 : ℕ) = localSignature.length from rfl, field_append_right, h, field_record]

theorem Entry.headerAt_bytes : HeaderAt (xs ++ (e.bytes ++ ys)) xs.length := by
  constructor
  · rw [List.length_append, List.length_append, e.length_bytes]
    omega
  · rw [List.drop_left, Entry.bytes, List.append_assoc]
    exact List.take_left' rfl

theorem Entry.headerAt_eq : headerAt (xs ++ (e.bytes ++ ys)) xs.length = e.localHeader := by
  have hcompressed := (e.field_bytes xs ys (e.headerFields.take 6) rfl).trans
    (Nat.mod_eq_of_lt (e.inHeader_lt fun h ↦ (e.header_fits h).1))
  have huncompressed := (e.field_bytes xs ys (e.headerFields.take 7) rfl).trans
    (Nat.mod_eq_of_lt (e.inHeader_lt fun h ↦ (e.header_fits h).2))
  have hname := (e.field_bytes xs ys (e.headerFields.take 8) rfl).trans
    (Nat.mod_eq_of_lt e.length_name)
  have hextra := (e.field_bytes xs ys (e.headerFields.take 9) rfl).trans
    (Nat.mod_eq_of_lt e.length_extra)
  exact LocalHeader.mk.injEq .. |>.mpr ⟨hcompressed, huncompressed, hname, hextra⟩

/-- Over a plain entry the walk moves to what is behind it. -/
theorem Entry.Plain.stride_localHeader {e : Entry} (h : e.Plain) :
    e.localHeader.stride = e.bytes.length := by
  obtain ⟨hsizes, hdescriptor, hlength⟩ := h
  have htrailer : e.trailer = [] := by rw [Entry.trailer, hdescriptor, Option.elim_none]
  have hlen : e.bytes.length = 30 + e.name.length + e.extra.length + e.data.length := by
    rw [e.length_bytes, htrailer, List.length_nil, Nat.add_zero]
  rw [LocalHeader.stride, Entry.localHeader, Entry.inHeader, if_pos hsizes]
  dsimp only
  rw [← hlen, Nat.mod_eq_of_lt hlength]

theorem Entry.Plain.next_seen {e : Entry} (h : e.Plain) (es : List Entry) :
    (seen es).next e.localHeader = seen (es ++ [e]) := by
  have hcompressed : e.inHeader e.data.length = e.data.length := if_pos h.1
  have huncompressed : e.inHeader e.uncompressedSize = e.uncompressedSize := if_pos h.1
  rw [Walk.next, h.stride_localHeader]
  simp only [seen, Entry.localHeader, entriesBytes, totalUncompressed, totalCompressed,
    hcompressed, huncompressed, List.flatMap_append, List.flatMap_cons, List.flatMap_nil,
    List.append_nil, List.length_append, List.map_append, List.map_cons, List.map_nil,
    List.sum_append, List.sum_cons, List.sum_nil, Nat.add_zero, Nat.mod_add_mod]

end Entry

/-! ## The walk over a ZIP file -/

theorem entriesBytes_append (es es' : List Entry) :
    entriesBytes (es ++ es') = entriesBytes es ++ entriesBytes es' := List.flatMap_append

theorem entriesBytes_cons (e : Entry) (es : List Entry) :
    entriesBytes (e :: es) = e.bytes ++ entriesBytes es := rfl

/-- The walk keeps in step with plain entries, whatever is behind them. -/
theorem passes_start_iff_seen (es : List Entry) (hplain : ∀ e ∈ es, e.Plain) (ys : List UInt8) :
    Passes (entriesBytes es ++ ys) .start ↔ Passes (entriesBytes es ++ ys) (seen es) := by
  induction es using List.reverseRecOn generalizing ys with
  | nil => rfl
  | append_singleton es e ih =>
    have hes : ∀ e' ∈ es, e'.Plain := fun e' he' ↦ hplain e' (List.mem_append_left _ he')
    have he : e.Plain := hplain e (List.mem_append_right _ List.mem_cons_self)
    have hsplit : entriesBytes (es ++ [e]) ++ ys = entriesBytes es ++ (e.bytes ++ ys) := by
      rw [entriesBytes_append, entriesBytes_cons, List.append_assoc, List.append_assoc]
      rfl
    have hheader : HeaderAt (entriesBytes es ++ (e.bytes ++ ys)) (seen es).offset :=
      e.headerAt_bytes _ _
    have hread : headerAt (entriesBytes es ++ (e.bytes ++ ys)) (seen es).offset = e.localHeader :=
      e.headerAt_eq _ _
    rw [hsplit, ih hes, passes_iff_next hheader, hread, he.next_seen]

namespace ZipFile

variable (z : ZipFile)

theorem plain_of_mem_readable {e : Entry} (h : e ∈ z.readable) : e.Plain := by
  rw [readable] at h
  simpa using List.mem_takeWhile_imp h

theorem readable_of_forall_plain (h : ∀ e ∈ z.entries, e.Plain) : z.readable = z.entries :=
  List.takeWhile_eq_self_iff.mpr fun e he ↦ decide_eq_true (h e he)

/-- A ZIP file begins with the signature of a record. -/
theorem exists_bytes_eq : ∃ b b' rest, z.bytes = 0x50 :: 0x4B :: b :: b' :: rest := by
  cases hentries : z.entries with
  | nil =>
    obtain ⟨signature, hmem, rest, hrest⟩ := z.directory_start
    rw [ZipFile.bytes, hentries, ← hrest]
    simp only [directorySignatures, List.mem_cons, List.not_mem_nil, or_false] at hmem
    rcases hmem with rfl | rfl | rfl | rfl <;> exact ⟨_, _, rest, rfl⟩
  | cons e es =>
    rw [ZipFile.bytes, hentries, entriesBytes_cons, Entry.bytes]
    exact ⟨0x03, 0x04, _, rfl⟩

/-- The scan accepts a ZIP file just when it passes from behind the plain entries at its front. -/
theorem accepts_iff_passes_readable :
    Accepts z.bytes ↔ Passes z.bytes (seen z.readable) := by
  obtain ⟨b, b', rest, hbytes⟩ := z.exists_bytes_eq
  have hlength : 2 ≤ z.bytes.length := by
    rw [hbytes]
    exact Nat.le_add_left 2 _
  have hmagic : z.bytes.take 2 ≠ gzipMagic := by
    rw [hbytes]
    exact fun h ↦ absurd h (by simp [gzipMagic])
  have hsplit : z.bytes = entriesBytes z.readable ++
      (entriesBytes (z.entries.dropWhile fun e ↦ decide e.Plain) ++ z.directory) := by
    rw [← List.append_assoc, ← entriesBytes_append, readable, List.takeWhile_append_dropWhile]
    rfl
  rw [accepts_iff_passes hlength hmagic, hsplit]
  exact passes_start_iff_seen _ (fun e ↦ z.plain_of_mem_readable) _

theorem sound_of_plain (hplain : ∀ e ∈ z.entries, e.Plain) (h : Accepts z.bytes) :
    totalUncompressed z.entries ≤ maxUncompressedSize := by
  rw [accepts_iff_passes_readable, z.readable_of_forall_plain hplain] at h
  exact h.totalUncompressed_le

end ZipFile

/-! ## The last member of a gzip file -/

namespace GzipFile

variable (g : GzipFile)

theorem take_two_bytes : g.bytes.take 2 = gzipMagic := by
  obtain ⟨m, ms, hmembers⟩ := List.exists_cons_of_ne_nil g.nonempty
  rw [GzipFile.bytes, hmembers]
  rfl

theorem bytes_eq : g.bytes = (g.members.dropLast.flatMap GzipMember.bytes ++ g.last.body) ++
    toBytes 4 g.last.uncompressedSize := by
  have hmembers : g.members = g.members.dropLast ++ [g.last] :=
    (List.dropLast_append_getLast g.nonempty).symm
  rw [GzipFile.bytes, List.append_assoc]
  nth_rewrite 1 [hmembers]
  rw [List.flatMap_append, List.flatMap_cons, List.flatMap_nil, List.append_nil]
  rfl

/-- The scan accepts a gzip file just when its last member says that it is small. -/
theorem accepts_iff :
    Accepts g.bytes ↔ g.last.uncompressedSize % 2 ^ 32 ≤ maxUncompressedSize := by
  have hbody : 8 ≤ g.last.body.length := by
    simp only [GzipMember.body, gzipMagic, List.length_append, List.length_cons, List.length_nil,
      length_toBytes]
    omega
  have hlength : 8 ≤ g.bytes.length := by
    rw [bytes_eq, List.length_append, List.length_append]
    omega
  have hfield : field g.bytes (g.bytes.length - 4) 4 = g.last.uncompressedSize % 2 ^ 32 := by
    rw [bytes_eq, List.length_append, length_toBytes, Nat.add_sub_cancel]
    have h := field_append_right (g.members.dropLast.flatMap GzipMember.bytes ++ g.last.body)
      (toBytes 4 g.last.uncompressedSize ++ []) 0 4
    rw [field_toBytes, List.append_nil] at h
    exact h
  rw [accepts_gzip_iff hlength g.take_two_bytes, hfield]

end GzipFile

/-! ## An entry that is not plain -/

namespace Entry

variable {e : Entry}

theorem trailer_of_isSome (h : e.descriptor.isSome = true) : 4 ≤ e.trailer.length := by
  obtain ⟨d, hd⟩ := Option.isSome_iff_exists.mp h
  have hwidth : 4 ≤ d.width := by
    rw [Descriptor.width]
    split_ifs <;> omega
  simp only [trailer, hd, Option.elim_some, Descriptor.bytes, List.length_append, length_record,
    List.map_cons, List.map_nil, List.sum_cons, List.sum_nil]
  omega

/-- The header of an entry never declares all of it, unless the entry is plain. -/
theorem four_le_length_unread (h : ¬ e.Plain) : 4 ≤ e.unread.length := by
  have hlength := e.length_bytes
  rw [unread, List.length_drop, LocalHeader.stride, localHeader, inHeader]
  dsimp only
  by_cases hsizes : e.sizesInHeader = true
  · rw [if_pos hsizes]
    rcases hdescriptor : e.descriptor with _ | d
    · -- nothing is behind the data, so the declared length has wrapped around
      have htrailer : e.trailer = [] := by rw [trailer, hdescriptor, Option.elim_none]
      have hlarge : 2 ^ 32 ≤ e.bytes.length := not_lt.mp fun hlt ↦ h ⟨hsizes, hdescriptor, hlt⟩
      rw [htrailer, List.length_nil] at hlength
      omega
    · have htrailer := e.trailer_of_isSome (by rw [hdescriptor]; rfl)
      have hle := Nat.mod_le (30 + e.name.length + e.extra.length + e.data.length) (2 ^ 32)
      omega
  · rw [if_neg hsizes]
    have htrailer := e.trailer_of_isSome (e.sizes_somewhere.resolve_left hsizes)
    have hle := Nat.mod_le (30 + e.name.length + e.extra.length + 0) (2 ^ 32)
    omega

/-- Where the next header seems to be missing, the walk finds none. -/
theorem Ends.not_headerAt (hends : e.Ends) (h : ¬ e.Plain) (xs ys : List UInt8) :
    ¬ HeaderAt (xs ++ (e.bytes ++ ys)) (xs.length + e.localHeader.stride) := by
  rintro ⟨-, hsignature⟩
  have hlength := four_le_length_unread h
  have hle : e.localHeader.stride ≤ e.bytes.length := by
    rw [unread, List.length_drop] at hlength
    omega
  rw [List.drop_append, Nat.add_sub_cancel_left, List.drop_eq_nil_of_le (Nat.le_add_right _ _),
    List.nil_append, List.drop_append_of_le_length hle, ← unread,
    List.take_append_of_le_length hlength] at hsignature
  exact hends hsignature

end Entry

namespace ZipFile

variable {z : ZipFile} {e : Entry}

theorem forall_plain_of_misread (h : z.misread = none) : ∀ e ∈ z.entries, e.Plain := by
  simpa [misread] using h

/-- The entries around the first that is not plain. -/
theorem entries_of_misread (h : z.misread = some e) :
    ¬ e.Plain ∧ ∃ es, z.entries = z.readable ++ e :: es := by
  obtain ⟨hnot, before, after, hentries, hbefore⟩ := List.find?_eq_some_iff_append.mp h
  have hplain : ¬ e.Plain := by simpa using hnot
  refine ⟨hplain, after, ?_⟩
  rw [readable, hentries, List.takeWhile_append_of_pos (by simpa using hbefore),
    List.takeWhile_cons_of_neg (by simpa using hplain), List.append_nil]

theorem shown_of_misread (h : z.misread = some e) : z.shown = z.readable ++ [e] := by
  rw [shown, h]
  rfl

/-- Over plain entries the sizes in the headers are the true ones. -/
theorem map_inHeader_readable (f : Entry → ℕ) :
    z.readable.map (fun e ↦ e.inHeader (f e)) = z.readable.map f := by
  refine List.map_congr_left fun e he ↦ ?_
  exact if_pos (z.plain_of_mem_readable he).1

/-- The walk has read the header of the first entry that is not plain. -/
theorem next_seen_readable (h : z.misread = some e) :
    (seen z.readable).next e.localHeader =
      { offset := (entriesBytes z.readable).length + e.localHeader.stride
        totalUncompressed := z.shownUncompressed
        totalCompressed := z.shownCompressed % 2 ^ 64 } := by
  rw [Walk.next, shownUncompressed, shownCompressed, z.shown_of_misread h, List.map_append,
    List.map_append, map_inHeader_readable, map_inHeader_readable]
  simp only [seen, Entry.localHeader, totalUncompressed, totalCompressed, List.map_cons,
    List.map_nil, List.sum_append, List.sum_cons, List.sum_nil, Nat.add_zero, Nat.mod_add_mod]

/-- The scan accepts just when it passes from behind the header of that entry. -/
theorem accepts_iff_of_misread (h : z.misread = some e) : Accepts z.bytes ↔
    Passes z.bytes ((seen z.readable).next e.localHeader) := by
  obtain ⟨-, es, hentries⟩ := entries_of_misread h
  have hbytes : z.bytes =
      entriesBytes z.readable ++ (e.bytes ++ (entriesBytes es ++ z.directory)) := by
    rw [ZipFile.bytes, hentries, entriesBytes_append, entriesBytes_cons, List.append_assoc,
      List.append_assoc]
  have hheader : HeaderAt z.bytes (seen z.readable).offset := hbytes ▸ e.headerAt_bytes _ _
  have hread : headerAt z.bytes (seen z.readable).offset = e.localHeader :=
    hbytes ▸ e.headerAt_eq _ _
  rw [z.accepts_iff_passes_readable, passes_iff_next hheader, hread]

/-- **Where the scan ends.** If no header seems to follow the first entry that is not plain, the
scan judges the archive by the headers up to there, whatever is in that entry and behind it. -/
theorem accepts_iff_of_ends (h : z.misread = some e) (hends : e.Ends) :
    Accepts z.bytes ↔ z.shownUncompressed ≤ maxUncompressedSize ∧ ¬ z.Dense := by
  obtain ⟨hplain, es, hentries⟩ := entries_of_misread h
  have hbytes : z.bytes =
      entriesBytes z.readable ++ (e.bytes ++ (entriesBytes es ++ z.directory)) := by
    rw [ZipFile.bytes, hentries, entriesBytes_append, entriesBytes_cons, List.append_assoc,
      List.append_assoc]
  have hend : ¬ HeaderAt z.bytes ((seen z.readable).next e.localHeader).offset :=
    hbytes ▸ hends.not_headerAt hplain _ _
  rw [accepts_iff_of_misread h, passes_iff_of_not_headerAt hend, next_seen_readable h]
  exact Iff.rfl

theorem not_accepts_of_shown (h : z.misread = some e)
    (hlarge : maxUncompressedSize < z.shownUncompressed) : ¬ Accepts z.bytes := by
  rw [accepts_iff_of_misread h]
  intro hpasses
  have hle := hpasses.totalUncompressed_le
  rw [next_seen_readable h] at hle
  exact absurd hle hlarge.not_ge

end ZipFile

/-! ## When the scan is sound -/

/-- **Soundness of the bomb scan.** An archive that is `Visible` is accepted only if no more than
the bound is in it; and where bytes that are not a header are not taken for one, only archives that
are `Visible` have this property. -/
theorem bomb_scan_sound_iff (a : Archive) :
    (a.Visible → Accepts a.bytes → a.total ≤ maxUncompressedSize) ∧
      (a.Ends → ((Accepts a.bytes → a.total ≤ maxUncompressedSize) ↔ a.Visible)) := by
  cases a with
  | zip z =>
    have hsound : (Archive.zip z).Visible → Accepts z.bytes →
        totalUncompressed z.entries ≤ maxUncompressedSize := by
      rintro (hsmall | hplain | hlarge | ⟨hends, hdense⟩) haccepts
      · exact hsmall
      · exact z.sound_of_plain hplain haccepts
      · rcases hmisread : z.misread with _ | e
        · exact z.sound_of_plain (z.forall_plain_of_misread hmisread) haccepts
        · exact absurd haccepts (z.not_accepts_of_shown hmisread hlarge)
      · rcases hmisread : z.misread with _ | e
        · exact z.sound_of_plain (z.forall_plain_of_misread hmisread) haccepts
        · exact absurd hdense ((z.accepts_iff_of_ends hmisread (hends e hmisread)).mp haccepts).2
    refine ⟨hsound, fun hends ↦ ⟨fun hlaw ↦ ?_, hsound⟩⟩
    by_cases haccepts : Accepts z.bytes
    · exact .inl (hlaw haccepts)
    rcases hmisread : z.misread with _ | e
    · exact .inr (.inl (z.forall_plain_of_misread hmisread))
    · rw [z.accepts_iff_of_ends hmisread (hends e hmisread), not_and_or, not_not, not_le]
        at haccepts
      rcases haccepts with hlarge | hdense
      · exact .inr (.inr (.inl hlarge))
      · exact .inr (.inr (.inr ⟨hends, hdense⟩))
  | gzip g =>
    have hiff : (Accepts g.bytes → (Archive.gzip g).total ≤ maxUncompressedSize) ↔
        (Archive.gzip g).Visible := by
      constructor
      · intro hsound
        by_cases haccepts : Accepts g.bytes
        · exact .inl (hsound haccepts)
        · exact .inr (not_le.mp (mt g.accepts_iff.mpr haccepts))
      · rintro (hsmall | hlast) haccepts
        · exact hsmall
        · exact absurd (g.accepts_iff.mp haccepts) hlast.not_ge
    exact ⟨hiff.mpr, fun _ ↦ hiff⟩

/-! ## An entry whose sizes come later -/

/-- The local header takes the walk over the name and the extra field, and no further. -/
theorem Entry.unread_of_deferred {e : Entry} (h : e.sizesInHeader = false) :
    e.unread = e.data ++ e.trailer := by
  have hname := e.length_name
  have hextra := e.length_extra
  have hstride : e.localHeader.stride = 30 + e.name.length + e.extra.length := by
    rw [LocalHeader.stride, Entry.localHeader, Entry.inHeader, if_neg (by simp [h])]
    dsimp only
    omega
  have hsplit : e.bytes =
      (localSignature ++ (record e.headerFields ++ (e.name ++ e.extra))) ++
        (e.data ++ e.trailer) := by
    simp only [Entry.bytes, List.append_assoc]
  rw [Entry.unread, hstride, hsplit]
  apply List.drop_left'
  simp only [List.length_append, length_record, Entry.headerFields, localSignature,
    List.map_cons, List.map_nil, List.sum_cons, List.sum_nil, List.length_cons, List.length_nil]
  omega

/-- When the sizes of an entry are not in its header, and its data does not begin as a local header
does, the scan ends there. -/
theorem Entry.ends_of_deferred {e : Entry} (hdeferred : e.sizesInHeader = false)
    (hdata : 4 ≤ e.data.length) (hstart : e.data.take 4 ≠ localSignature) : e.Ends := by
  rw [Entry.Ends, Entry.unread_of_deferred hdeferred, List.take_append_of_le_length hdata]
  exact hstart

/-- A file of `104857601` zero bytes, written to a stream: stored as it is, its sizes and checksum
behind it. -/
def streamedEntry : Entry where
  version := 20
  flags := 8
  method := 0
  time := 0
  date := 33
  crc := 748543192
  name := [0x61]
  extra := []
  data := List.replicate 104857601 0
  uncompressedSize := 104857601
  sizesInHeader := false
  descriptor := some ⟨true, false⟩
  length_name := by decide
  length_extra := by decide
  descriptor_iff := by decide
  sizes_somewhere := .inr rfl
  header_fits := nofun
  descriptor_fits := by
    rintro d ⟨⟩
    rw [List.length_replicate]
    decide
  stored := fun _ _ ↦ List.length_replicate.symm

/-- The archive with that one file. -/
def streamedZip : ZipFile where
  entries := [streamedEntry]
  directory := [0x50, 0x4B, 0x01, 0x02] ++ record [(2, 20), (2, 20), (2, 8), (2, 0), (2, 0),
      (2, 33), (4, 748543192), (4, 104857601), (4, 104857601), (2, 1), (2, 0), (2, 0), (2, 0),
      (2, 0), (4, 0), (4, 0)] ++ [0x61] ++
    [0x50, 0x4B, 0x05, 0x06] ++ record [(2, 0), (2, 0), (2, 1), (2, 1), (4, 47), (4, 104857648),
      (2, 0)]
  directory_start := ⟨[0x50, 0x4B, 0x01, 0x02], List.mem_cons_self, by
    rw [List.append_assoc, List.append_assoc, List.append_assoc]
    exact List.prefix_append _ _⟩

/-- The scan accepts an archive with more in it than the bound. -/
theorem streamed_zip_accepted :
    ¬ ∀ a : Archive, Accepts a.bytes → a.total ≤ maxUncompressedSize := by
  intro hsound
  have haccepts : Accepts streamedZip.bytes := by
    have hplain : ¬ streamedEntry.Plain := fun h ↦ Bool.false_ne_true h.1
    have hmisread : streamedZip.misread = some streamedEntry :=
      List.find?_cons_of_pos (decide_eq_true hplain)
    have hreadable : streamedZip.readable = [] :=
      List.takeWhile_cons_of_neg (by simpa using hplain)
    have huncompressed : streamedZip.shownUncompressed = 0 := by
      rw [ZipFile.shownUncompressed, ZipFile.shown_of_misread hmisread, hreadable]
      rfl
    refine (ZipFile.accepts_iff_of_ends hmisread (Entry.ends_of_deferred rfl ?_ ?_)).mpr
      ⟨by rw [huncompressed]; exact Nat.zero_le _, fun h ↦ ?_⟩
    · rw [streamedEntry, List.length_replicate]
      decide
    · rw [streamedEntry, List.take_replicate]
      decide
    · rw [ZipFile.Dense, huncompressed] at h
      exact absurd h.2.1 (Nat.not_lt_zero _)
  exact absurd (hsound (.zip streamedZip) haccepts) (by decide)

end BenchmarkPlatform.Submissions
