import BenchmarkPlatform.Submissions.Elf
import BenchmarkPlatform.Submissions.ZipScan

/-!
# The scan over entries with their sizes

When each local header has the compressed size of its entry, the scan keeps in step: it reads the
local headers at their places, one after the other, and ends behind the last entry. It does so
whatever else the headers say, and whatever the sizes are that they declare; but it does not go on
behind the entry with which the declared sizes exceed the bound.
-/

namespace BenchmarkPlatform.Submissions

open Lib

/-! ## The entries -/

/-- An entry of a ZIP file whose local header has the compressed size of its data. -/
structure SizedEntry where
  /-- The header from the version to the checksum, which the scan does not read. -/
  fixed : List UInt8
  name : List UInt8
  extra : List UInt8
  data : List UInt8
  uncompressedSize : UInt32
  length_fixed : fixed.length = 14
  length_name : name.length < 2 ^ 16
  length_extra : extra.length < 2 ^ 16

namespace SizedEntry

variable (e : SizedEntry)

/-- The fields of the local header that the scan reads. -/
def sizes : List (ℕ × ℕ) :=
  [(4, e.data.length), (4, e.uncompressedSize.toNat), (2, e.name.length), (2, e.extra.length)]

def bytes : List UInt8 :=
  localSignature ++ (e.fixed ++ (record e.sizes ++ (e.name ++ (e.extra ++ e.data))))

def localHeader : LocalHeader where
  compressedSize := e.data.length
  uncompressedSize := e.uncompressedSize.toNat
  filenameLen := e.name.length
  extraLen := e.extra.length

end SizedEntry

def sizedBytes (es : List SizedEntry) : List UInt8 :=
  es.flatMap SizedEntry.bytes

/-- `U`: the sum of the declared uncompressed sizes. -/
def declaredTotal (es : List SizedEntry) : ℕ :=
  (es.map fun e ↦ e.uncompressedSize.toNat).sum

/-- `C`: the sum of the compressed sizes. -/
def compressedTotal (es : List SizedEntry) : ℕ :=
  (es.map fun e ↦ e.data.length).sum

/-- The local headers of entries that begin at an offset, each with its place. -/
def located : ℕ → List SizedEntry → List (ℕ × LocalHeader)
  | _, [] => []
  | offset, e :: es => (offset, e.localHeader) :: located (offset + e.bytes.length) es

/-- The entries up to the first with which the declared sizes exceed the bound, and that one. -/
def withinBound : ℕ → List SizedEntry → List SizedEntry
  | _, [] => []
  | total, e :: es =>
    let total := total + e.uncompressedSize.toNat
    e :: if maxUncompressedSize < total then [] else withinBound total es

/-- The local headers that the loop reads, each with its place. -/
def visited (data : List UInt8) : ℕ → Walk → List (ℕ × LocalHeader)
  | 0, _ => []
  | fuel + 1, w =>
    if HeaderAt data w.offset then
      (w.offset, headerAt data w.offset) :: (scanBody data w).elim (visited data fuel) fun _ ↦ []
    else []

/-! ## The local header of an entry -/

section Entry

variable (e : SizedEntry) (xs ys : List UInt8)

theorem SizedEntry.length_bytes : e.bytes.length =
    30 + e.name.length + e.extra.length + e.data.length := by
  simp only [SizedEntry.bytes, List.length_append, length_record, SizedEntry.sizes, localSignature,
    List.map_cons, List.map_nil, List.sum_cons, List.sum_nil, List.length_cons, List.length_nil,
    e.length_fixed]
  omega

/-- A field that the scan reads is found at its place in the file. -/
theorem SizedEntry.field_bytes (before : List (ℕ × ℕ)) {after : List (ℕ × ℕ)} {width n : ℕ}
    (h : e.sizes = before ++ (width, n) :: after) :
    field (xs ++ (e.bytes ++ ys)) (xs.length + (4 + (14 + (before.map Prod.fst).sum))) width
      = n % 256 ^ width := by
  rw [field_append_right, SizedEntry.bytes, List.append_assoc, List.append_assoc, List.append_assoc,
    show (4 : ℕ) = localSignature.length from rfl, field_append_right, ← e.length_fixed,
    field_append_right, h, field_record]

theorem SizedEntry.headerAt_bytes : HeaderAt (xs ++ (e.bytes ++ ys)) xs.length := by
  constructor
  · rw [List.length_append, List.length_append, e.length_bytes]
    omega
  · rw [List.drop_left, SizedEntry.bytes, List.append_assoc]
    exact List.take_left' rfl

theorem SizedEntry.headerAt_eq (h : e.bytes.length < 2 ^ 32) :
    headerAt (xs ++ (e.bytes ++ ys)) xs.length = e.localHeader := by
  rw [e.length_bytes] at h
  have hcompressed := (e.field_bytes xs ys [] rfl).trans
    (Nat.mod_eq_of_lt (show e.data.length < 256 ^ 4 by omega))
  have huncompressed := (e.field_bytes xs ys (e.sizes.take 1) rfl).trans
    (Nat.mod_eq_of_lt e.uncompressedSize.toNat_lt)
  have hname := (e.field_bytes xs ys (e.sizes.take 2) rfl).trans
    (Nat.mod_eq_of_lt e.length_name)
  have hextra := (e.field_bytes xs ys (e.sizes.take 3) rfl).trans
    (Nat.mod_eq_of_lt e.length_extra)
  exact LocalHeader.mk.injEq .. |>.mpr ⟨hcompressed, huncompressed, hname, hextra⟩

/-- The walk moves to what is behind the entry. -/
theorem SizedEntry.stride_localHeader (h : e.bytes.length < 2 ^ 32) :
    e.localHeader.stride = e.bytes.length := by
  have hextent : 30 + e.name.length + e.extra.length + e.data.length < 2 ^ 32 :=
    e.length_bytes ▸ h
  rw [LocalHeader.stride, e.length_bytes]
  exact Nat.mod_eq_of_lt hextent

end Entry

/-! ## The walk -/

variable {w : Walk}

theorem sizedBytes_cons (e : SizedEntry) (es : List SizedEntry) :
    sizedBytes (e :: es) = e.bytes ++ sizedBytes es := rfl

theorem declaredTotal_cons (e : SizedEntry) (es : List SizedEntry) :
    declaredTotal (e :: es) = e.uncompressedSize.toNat + declaredTotal es := rfl

theorem compressedTotal_cons (e : SizedEntry) (es : List SizedEntry) :
    compressedTotal (e :: es) = e.data.length + compressedTotal es := rfl

/-- The data of the entries is part of the file. -/
theorem compressedTotal_le (es : List SizedEntry) :
    compressedTotal es ≤ (sizedBytes es).length := by
  induction es with
  | nil => exact le_refl 0
  | cons e es ih =>
    rw [compressedTotal_cons, sizedBytes_cons, List.length_append, e.length_bytes]
    omega

/-- As long as the bound holds, all entries are within it. -/
theorem withinBound_eq_self {total : ℕ} {es : List SizedEntry}
    (h : total + declaredTotal es ≤ maxUncompressedSize) : withinBound total es = es := by
  induction es generalizing total with
  | nil => rfl
  | cons e es ih =>
    rw [declaredTotal_cons, ← add_assoc] at h
    have hfirst : ¬ maxUncompressedSize < total + e.uncompressedSize.toNat :=
      ((Nat.le_add_right _ _).trans h).not_gt
    rw [withinBound, if_neg hfirst, ih h]

/-- Where no local header begins, none is read. -/
theorem not_headerAt_of_not_prefix {xs tail : List UInt8} (h : ¬ localSignature <+: tail) :
    ¬ HeaderAt (xs ++ tail) xs.length := by
  rintro ⟨-, hsignature⟩
  rw [List.drop_left] at hsignature
  exact h (hsignature ▸ List.take_prefix 4 tail)

/-- One round, at an entry. -/
theorem scanBody_entry {xs : List UInt8} (ys : List UInt8) {e : SizedEntry}
    (hw : w.offset = xs.length) (he : e.bytes.length < 2 ^ 32) :
    scanBody (xs ++ (e.bytes ++ ys)) w =
      if maxUncompressedSize < w.totalUncompressed + e.uncompressedSize.toNat then
        .inr (.error .zipSize)
      else .inl (w.next e.localHeader) := by
  have hheader : HeaderAt (xs ++ (e.bytes ++ ys)) w.offset := hw ▸ e.headerAt_bytes xs ys
  have hread : headerAt (xs ++ (e.bytes ++ ys)) w.offset = e.localHeader :=
    hw ▸ e.headerAt_eq xs ys he
  rw [scanBody, if_pos hheader, hread]
  rfl

/-- **The walk keeps in step.** From the beginning of an entry it reads the local headers of the
entries within the bound, and needs one round for each entry and one more. -/
theorem walk_entries (es : List SizedEntry) (xs : List UInt8) {tail : List UInt8}
    (htail : ¬ localSignature <+: tail) (hw : w.offset = xs.length)
    (hbound : w.totalUncompressed ≤ maxUncompressedSize)
    (hlength : (sizedBytes es).length < 2 ^ 32)
    (hcompressed : w.totalCompressed + compressedTotal es < 2 ^ 64) :
    visited (xs ++ (sizedBytes es ++ tail)) (es.length + 1) w
        = located xs.length (withinBound w.totalUncompressed es) ∧
      ∃ result, loop (scanBody (xs ++ (sizedBytes es ++ tail))) (es.length + 1) w = some result ∧
        (result = .ok () ↔ w.totalUncompressed + declaredTotal es ≤ maxUncompressedSize ∧
          ¬ Walk.Suspicious ⟨w.offset + (sizedBytes es).length,
            w.totalUncompressed + declaredTotal es, w.totalCompressed + compressedTotal es⟩) := by
  induction es generalizing xs w with
  | nil =>
    have hend : ¬ HeaderAt (xs ++ (sizedBytes [] ++ tail)) w.offset :=
      hw ▸ not_headerAt_of_not_prefix htail
    constructor
    · rw [visited, if_neg hend]
      rfl
    · have hbody : scanBody (xs ++ (sizedBytes [] ++ tail)) w = .inr (checkRatio w) := if_neg hend
      refine ⟨checkRatio w, loop_of_inr hbody 0, ?_⟩
      rw [checkRatio_eq_ok_iff]
      exact (and_iff_right hbound).symm
  | cons e es ih =>
    rw [sizedBytes_cons, List.length_append] at hlength
    rw [compressedTotal_cons] at hcompressed
    have he : e.bytes.length < 2 ^ 32 := by omega
    have hsplit : xs ++ (sizedBytes (e :: es) ++ tail)
        = xs ++ (e.bytes ++ (sizedBytes es ++ tail)) :=
      congrArg (xs ++ ·) (List.append_assoc _ _ _)
    have hbody := scanBody_entry (sizedBytes es ++ tail) hw he
    have hvisited : visited (xs ++ (e.bytes ++ (sizedBytes es ++ tail))) (es.length + 1 + 1) w =
        (xs.length, e.localHeader) :: (scanBody (xs ++ (e.bytes ++ (sizedBytes es ++ tail))) w).elim
          (visited (xs ++ (e.bytes ++ (sizedBytes es ++ tail))) (es.length + 1)) fun _ ↦ [] := by
      have hheader : HeaderAt (xs ++ (e.bytes ++ (sizedBytes es ++ tail))) w.offset :=
        hw ▸ e.headerAt_bytes _ _
      rw [visited, if_pos hheader, hw, e.headerAt_eq _ _ he]
    rw [hsplit, List.length_cons, hvisited, withinBound, located]
    by_cases hexceeds : maxUncompressedSize < w.totalUncompressed + e.uncompressedSize.toNat
    · rw [if_pos hexceeds] at hbody
      rw [hbody, if_pos hexceeds]
      refine ⟨rfl, .error .zipSize, loop_of_inr hbody _, ?_⟩
      rw [declaredTotal_cons]
      refine iff_of_false (by simp) fun h ↦ ?_
      have hle := h.1
      omega
    · rw [if_neg hexceeds] at hbody
      have hassoc : xs ++ (e.bytes ++ (sizedBytes es ++ tail))
          = (xs ++ e.bytes) ++ (sizedBytes es ++ tail) := (List.append_assoc _ _ _).symm
      have hoffset : (w.next e.localHeader).offset = (xs ++ e.bytes).length := by
        rw [Walk.next, e.stride_localHeader he, List.length_append, hw]
      have htotal : (w.next e.localHeader).totalCompressed = w.totalCompressed + e.data.length :=
        Nat.mod_eq_of_lt (show w.totalCompressed + e.data.length < 2 ^ 64 by omega)
      obtain ⟨hvisits, result, hloop, hresult⟩ := ih _ hoffset (not_lt.mp hexceeds)
        (by omega) (by rw [htotal]; omega)
      rw [hbody, if_neg hexceeds, Sum.elim_inl, loop_of_inl hbody, hassoc, hvisits,
        List.length_append]
      refine ⟨rfl, result, hloop, ?_⟩
      rw [hresult, htotal, declaredTotal_cons, compressedTotal_cons, ← add_assoc, ← add_assoc]
      exact Iff.rfl

/-- **What the scan makes of entries with their sizes.** It reads their local headers in order, each
once, up to the first with which the declared sizes exceed the bound, which is to say all of them
when there is none; and it lets the file pass just when the declared sizes are within the bound and
not out of proportion. -/
theorem scan_sizedEntries (es : List SizedEntry) (tail : List UInt8) (hentries : es ≠ [])
    (htail : ¬ localSignature <+: tail)
    (hlength : (sizedBytes es ++ tail).length ≤ clientMaxBodySize) :
    visited (sizedBytes es ++ tail) (es.length + 1) .start = located 0 (withinBound 0 es) ∧
      (declaredTotal es ≤ 100 * 1024 * 1024 → withinBound 0 es = es) ∧
      ∃ result, scanZipForBombs (es.length + 1) (sizedBytes es ++ tail) = some result ∧
        (result = .ok () ↔ declaredTotal es ≤ 100 * 1024 * 1024 ∧
          ¬ (0 < compressedTotal es ∧ 5 * compressedTotal es < declaredTotal es ∧
            1024 * 1024 < declaredTotal es)) := by
  rw [List.length_append, clientMaxBodySize] at hlength
  have hcompressed := compressedTotal_le es
  obtain ⟨hvisited, result, hloop, hresult⟩ := walk_entries (w := .start) es [] htail rfl
    (Nat.zero_le _) (by omega) (show 0 + compressedTotal es < 2 ^ 64 by omega)
  have hstart : ∃ rest, sizedBytes es ++ tail = 0x50 :: 0x4B :: rest := by
    obtain ⟨e, es', rfl⟩ := List.exists_cons_of_ne_nil hentries
    exact ⟨_, rfl⟩
  obtain ⟨rest, hrest⟩ := hstart
  have hscan : scanZipForBombs (es.length + 1) (sizedBytes es ++ tail)
      = loop (scanBody (sizedBytes es ++ tail)) (es.length + 1) .start := by
    have hlong : ¬ (sizedBytes es ++ tail).length < 2 := by
      rw [hrest]
      exact (Nat.le_add_left 2 _).not_gt
    have hmagic : (sizedBytes es ++ tail).take 2 ≠ gzipMagic := by
      rw [hrest]
      exact fun h ↦ absurd h (by simp [gzipMagic])
    rw [scanZipForBombs, if_neg hlong, if_neg hmagic]
  refine ⟨hvisited, fun h ↦ withinBound_eq_self ((Nat.zero_add _).trans_le h), result,
    hscan.trans hloop, ?_⟩
  rw [hresult, Walk.start, Walk.Suspicious, maxUncompressedSize]
  simp only [Nat.zero_add]

theorem length_nil_lt : ([] : List UInt8).length < 2 ^ 16 := by decide

/-- An entry with no name and no data that declares a size. -/
def declaring (uncompressedSize : UInt32) : SizedEntry where
  fixed := List.replicate 14 0
  name := []
  extra := []
  data := []
  uncompressedSize := uncompressedSize
  length_fixed := rfl
  length_name := length_nil_lt
  length_extra := length_nil_lt

theorem scan_declaring :
    visited (sizedBytes [declaring 1, declaring 2] ++ []) 3 .start
        = located 0 (withinBound 0 [declaring 1, declaring 2]) ∧
      (declaredTotal [declaring 1, declaring 2] ≤ 100 * 1024 * 1024 →
        withinBound 0 [declaring 1, declaring 2] = [declaring 1, declaring 2]) ∧
      ∃ result, scanZipForBombs 3 (sizedBytes [declaring 1, declaring 2] ++ []) = some result ∧
        (result = .ok () ↔ declaredTotal [declaring 1, declaring 2] ≤ 100 * 1024 * 1024 ∧
          ¬ (0 < compressedTotal [declaring 1, declaring 2] ∧
            5 * compressedTotal [declaring 1, declaring 2]
              < declaredTotal [declaring 1, declaring 2] ∧
            1024 * 1024 < declaredTotal [declaring 1, declaring 2])) :=
  scan_sizedEntries [declaring 1, declaring 2] [] (by decide) (by decide) (by decide)

/-- Behind an entry that declares too much, the next is not read. -/
theorem scan_leaves_entry_unread : ∃ es tail, es ≠ [] ∧ ¬ localSignature <+: tail ∧
    (sizedBytes es ++ tail).length ≤ clientMaxBodySize ∧
    ∀ fuel, visited (sizedBytes es ++ tail) fuel .start ≠ located 0 es := by
  refine ⟨[declaring 104857601, declaring 0], [], by decide, by decide, by decide, fun fuel ↦ ?_⟩
  have hbody : scanBody (sizedBytes [declaring 104857601, declaring 0] ++ []) .start
      = .inr (.error .zipSize) := by decide
  have hle : (visited (sizedBytes [declaring 104857601, declaring 0] ++ []) fuel
      .start).length ≤ 1 := by
    cases fuel with
    | zero => exact Nat.zero_le 1
    | succ fuel =>
      rw [visited, hbody, Sum.elim_inr]
      split_ifs
      · exact le_refl 1
      · exact Nat.zero_le 1
  intro h
  rw [h] at hle
  exact absurd hle (by decide)

end BenchmarkPlatform.Submissions
