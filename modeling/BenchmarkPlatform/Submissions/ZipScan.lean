import BenchmarkPlatform.Lib.Bytes
import BenchmarkPlatform.Lib.Loop
import Mathlib.Algebra.Order.Field.Basic
import Mathlib.Data.Rat.Cast.Order

/-!
# The scan for decompression bombs

An uploaded archive is looked at before it is stored. A gzip file is judged by its last four bytes.
A ZIP file is walked from local header to local header, each step as long as the header says its
entry is, and the walk stops where there is no local header.

What the walk accepts is a property of the bytes: following the size fields from an offset, one
passes a finite chain of local headers, and the sizes they declare are within the bounds
(`returns_ok_iff_passes`).
-/

namespace BenchmarkPlatform.Submissions

open Lib

/-! ## The scan -/

/-- `MAX_UNCOMPRESSED_SIZE` -/
def maxUncompressedSize : ℕ := 100 * 1024 * 1024

/-- `MAX_COMPRESSION_RATIO` -/
def maxCompressionRatio : ℚ := 5

inductive ScanError
  | gzipSize
  | zipSize
  | ratio (ratio : ℚ)
  deriving DecidableEq, Repr

/-- The text for the client; `toString` is how a `double` is printed. -/
def ScanError.message (toString : ℚ → String) : ScanError → String
  | .gzipSize => "DoS Protection: Gzip uncompressed size exceeds 100MB limit"
  | .zipSize => "Zip bomb protection: Uncompressed size exceeds 100MB limit"
  | .ratio r => "Zip bomb protection: Compression ratio exceeds 5x limit (" ++ toString r ++ "x)"

def gzipMagic : List UInt8 := [0x1F, 0x8B]

def localSignature : List UInt8 := [0x50, 0x4B, 0x03, 0x04]

/-- The fields of a local header that the scan reads. -/
structure LocalHeader where
  compressedSize : ℕ
  uncompressedSize : ℕ
  filenameLen : ℕ
  extraLen : ℕ
  deriving DecidableEq, Repr

/-- `30 + filename_len + extra_len + compressed_size`, whose type is `uint32_t`. -/
def LocalHeader.stride (h : LocalHeader) : ℕ :=
  (30 + h.filenameLen + h.extraLen + h.compressedSize) % 2 ^ 32

/-- There is room for a local header at the offset, and its signature. -/
def HeaderAt (data : List UInt8) (offset : ℕ) : Prop :=
  offset + 30 ≤ data.length ∧ (data.drop offset).take 4 = localSignature

instance (data : List UInt8) (offset : ℕ) : Decidable (HeaderAt data offset) :=
  inferInstanceAs (Decidable (_ ∧ _))

def headerAt (data : List UInt8) (offset : ℕ) : LocalHeader where
  compressedSize := field data (offset + 18) 4
  uncompressedSize := field data (offset + 22) 4
  filenameLen := field data (offset + 26) 2
  extraLen := field data (offset + 28) 2

/-- The variables of the loop. A buffer is shorter than `2 ^ 63`, so that `offset` does not wrap. -/
structure Walk where
  offset : ℕ
  totalUncompressed : ℕ
  totalCompressed : ℕ
  deriving DecidableEq, Repr

def Walk.start : Walk := ⟨0, 0, 0⟩

/-- The sizes of one more entry. -/
def Walk.next (w : Walk) (h : LocalHeader) : Walk where
  offset := w.offset + h.stride
  totalUncompressed := w.totalUncompressed + h.uncompressedSize
  totalCompressed := (w.totalCompressed + h.compressedSize) % 2 ^ 64

/-- The test after the loop. Up to the bound on `totalUncompressed` the quotient of the two `double`
values is over five just when the exact one is. -/
def checkRatio (w : Walk) : Except ScanError Unit :=
  let ratio : ℚ := w.totalUncompressed / w.totalCompressed
  if 0 < w.totalCompressed ∧ maxCompressionRatio < ratio ∧ 1024 * 1024 < w.totalUncompressed then
    .error (.ratio ratio)
  else
    .ok ()

def scanBody (data : List UInt8) (w : Walk) : Walk ⊕ Except ScanError Unit :=
  if HeaderAt data w.offset then
    let next := w.next (headerAt data w.offset)
    if maxUncompressedSize < next.totalUncompressed then .inr (.error .zipSize) else .inl next
  else
    .inr (checkRatio w)

/-- The scan, where the loop runs for at most `fuel` rounds. -/
def scanZipForBombs (fuel : ℕ) (data : List UInt8) : Option (Except ScanError Unit) :=
  if data.length < 2 then some (.ok ())
  else if data.take 2 = gzipMagic then
    if data.length < 8 then some (.ok ())
    else if maxUncompressedSize < field data (data.length - 4) 4 then some (.error .gzipSize)
    else some (.ok ())
  else loop (scanBody data) fuel .start

/-- The scan comes to an end and lets the upload pass. -/
def Accepts (data : List UInt8) : Prop :=
  ∃ fuel, scanZipForBombs fuel data = some (.ok ())

/-! ## What the walk sees -/

variable {data : List UInt8} {w w' : Walk}

/-- The walk has seen too much for the little it has read. -/
def Walk.Suspicious (w : Walk) : Prop :=
  0 < w.totalCompressed ∧ 5 * w.totalCompressed < w.totalUncompressed ∧
    1024 * 1024 < w.totalUncompressed

/-- Following the size fields of local headers leads from one place to another. -/
inductive Follows (data : List UInt8) : Walk → Walk → Prop
  | refl (w : Walk) : Follows data w w
  | head {w w' : Walk} (h : HeaderAt data w.offset)
      (hrest : Follows data (w.next (headerAt data w.offset)) w') : Follows data w w'

/-- From here on there is a finite chain of local headers, and the sizes that they declare do not
exceed the bounds. -/
def Passes (data : List UInt8) (w : Walk) : Prop :=
  ∃ w', Follows data w w' ∧ ¬ HeaderAt data w'.offset ∧
    w'.totalUncompressed ≤ maxUncompressedSize ∧ ¬ w'.Suspicious

theorem Follows.totalUncompressed_le (h : Follows data w w') :
    w.totalUncompressed ≤ w'.totalUncompressed := by
  induction h with
  | refl w => exact le_refl _
  | head h hrest ih => exact (Nat.le_add_right _ _).trans ih

theorem Passes.totalUncompressed_le (h : Passes data w) :
    w.totalUncompressed ≤ maxUncompressedSize := by
  obtain ⟨w', hfollows, -, hle, -⟩ := h
  exact hfollows.totalUncompressed_le.trans hle

/-- At a local header the walk goes on. -/
theorem passes_iff_next (h : HeaderAt data w.offset) :
    Passes data w ↔ Passes data (w.next (headerAt data w.offset)) := by
  constructor
  · rintro ⟨w', hfollows, hend, hbounds⟩
    cases hfollows with
    | refl => exact absurd h hend
    | head _ hrest => exact ⟨w', hrest, hend, hbounds⟩
  · rintro ⟨w', hrest, hend, hbounds⟩
    exact ⟨w', .head h hrest, hend, hbounds⟩

theorem passes_iff_of_not_headerAt (h : ¬ HeaderAt data w.offset) :
    Passes data w ↔ w.totalUncompressed ≤ maxUncompressedSize ∧ ¬ w.Suspicious := by
  constructor
  · rintro ⟨w', hfollows, -, hbounds⟩
    cases hfollows with
    | refl => exact hbounds
    | head hheader _ => exact absurd hheader h
  · exact fun hbounds ↦ ⟨w, .refl w, h, hbounds⟩

theorem checkRatio_eq_ok_iff (w : Walk) : checkRatio w = .ok () ↔ ¬ w.Suspicious := by
  have hratio : (0 < w.totalCompressed ∧
      maxCompressionRatio < (w.totalUncompressed : ℚ) / w.totalCompressed ∧
      1024 * 1024 < w.totalUncompressed) ↔ w.Suspicious := by
    refine and_congr_right fun hpos ↦ and_congr_left fun _ ↦ ?_
    have hpos' : (0 : ℚ) < w.totalCompressed := Nat.cast_pos.mpr hpos
    rw [maxCompressionRatio, lt_div_iff₀ hpos']
    exact_mod_cast Iff.rfl
  by_cases h : w.Suspicious
  · have herror : checkRatio w = .error (.ratio (w.totalUncompressed / w.totalCompressed)) :=
      if_pos (hratio.mpr h)
    rw [herror]
    exact iff_of_false (by simp) (not_not_intro h)
  · have hok : checkRatio w = .ok () := if_neg fun h' ↦ h (hratio.mp h')
    exact iff_of_true hok h

/-- The loop goes round only at a local header, and only within the bound. -/
theorem scanBody_eq_inl_iff : scanBody data w = .inl w' ↔
    HeaderAt data w.offset ∧ w'.totalUncompressed ≤ maxUncompressedSize ∧
      w.next (headerAt data w.offset) = w' := by
  by_cases h : HeaderAt data w.offset
  · by_cases hle : (w.next (headerAt data w.offset)).totalUncompressed ≤ maxUncompressedSize
    · have hbody : scanBody data w = .inl (w.next (headerAt data w.offset)) := by
        rw [scanBody, if_pos h]
        exact if_neg hle.not_gt
      rw [hbody, Sum.inl.injEq]
      constructor
      · rintro rfl
        exact ⟨h, hle, rfl⟩
      · exact fun h' ↦ h'.2.2
    · have hbody : scanBody data w = .inr (.error .zipSize) := by
        rw [scanBody, if_pos h]
        exact if_pos (not_le.mp hle)
      rw [hbody]
      refine iff_of_false Sum.inr_ne_inl ?_
      rintro ⟨-, hle', rfl⟩
      exact hle hle'
  · rw [scanBody, if_neg h]
    exact iff_of_false Sum.inr_ne_inl fun h' ↦ h h'.1

theorem scanBody_eq_inr_ok_iff : scanBody data w = .inr (.ok ()) ↔
    ¬ HeaderAt data w.offset ∧ ¬ w.Suspicious := by
  by_cases h : HeaderAt data w.offset
  · refine iff_of_false ?_ fun h' ↦ h'.1 h
    rw [scanBody, if_pos h]
    dsimp only
    split_ifs <;> simp
  · rw [scanBody, if_neg h, Sum.inr.injEq, checkRatio_eq_ok_iff]
    exact (and_iff_right h).symm

/-- The loop comes to an end without a complaint just when the bytes pass. -/
theorem returns_ok_iff_passes (hle : w.totalUncompressed ≤ maxUncompressedSize) :
    Returns (scanBody data) w (.ok ()) ↔ Passes data w := by
  constructor
  · intro hreturns
    refine hreturns.rec_on_body
      (motive := fun w v ↦ v = .ok () → w.totalUncompressed ≤ maxUncompressedSize → Passes data w)
      ?_ ?_ rfl hle
    · rintro w v hbody rfl hle
      obtain ⟨hend, hratio⟩ := scanBody_eq_inr_ok_iff.mp hbody
      exact (passes_iff_of_not_headerAt hend).mpr ⟨hle, hratio⟩
    · intro w w' v hbody ih hv _
      obtain ⟨h, hle', rfl⟩ := scanBody_eq_inl_iff.mp hbody
      exact (passes_iff_next h).mpr (ih hv hle')
  · rintro ⟨w', hfollows, hend, hbounds⟩
    induction hfollows with
    | refl w =>
      exact (returns_iff_of_inr (scanBody_eq_inr_ok_iff.mpr ⟨hend, hbounds.2⟩)).mpr rfl
    | head h hrest ih =>
      have hnext := hrest.totalUncompressed_le.trans hbounds.1
      exact (returns_iff_of_inl (scanBody_eq_inl_iff.mpr ⟨h, hnext, rfl⟩)).mpr
        (ih hnext hend hbounds)

/-! ## What the scan accepts -/

/-- A file that begins as no gzip file does is accepted just when it passes from its first byte. -/
theorem accepts_iff_passes (hlength : 2 ≤ data.length) (hmagic : data.take 2 ≠ gzipMagic) :
    Accepts data ↔ Passes data .start := by
  rw [← returns_ok_iff_passes (Nat.zero_le _), Accepts, Returns]
  refine exists_congr fun fuel ↦ ?_
  rw [scanZipForBombs, if_neg hlength.not_gt, if_neg hmagic]

theorem accepts_gzip_iff (hlength : 8 ≤ data.length) (hmagic : data.take 2 = gzipMagic) :
    Accepts data ↔ field data (data.length - 4) 4 ≤ maxUncompressedSize := by
  have hshort : ¬ data.length < 2 := by omega
  by_cases h : field data (data.length - 4) 4 ≤ maxUncompressedSize
  · have hscan (fuel : ℕ) : scanZipForBombs fuel data = some (.ok ()) := by
      rw [scanZipForBombs, if_neg hshort, if_pos hmagic, if_neg hlength.not_gt, if_neg h.not_gt]
    exact iff_of_true ⟨0, hscan 0⟩ h
  · have hscan (fuel : ℕ) : scanZipForBombs fuel data = some (.error .gzipSize) := by
      rw [scanZipForBombs, if_neg hshort, if_pos hmagic, if_neg hlength.not_gt,
        if_pos (not_le.mp h)]
    refine iff_of_false ?_ h
    rintro ⟨fuel, hfuel⟩
    exact absurd ((hscan fuel).symm.trans hfuel) (by simp)

end BenchmarkPlatform.Submissions
