import BenchmarkPlatform.Submissions.ZipScan
import Mathlib.Algebra.Order.BigOperators.Group.List

/-!
# Progress of the scan

The walk from local header to local header is meant to end because each step leads further into the
buffer, by at least the thirty bytes of a header. The step is computed modulo `2 ^ 32` from numbers
that the upload chooses: a header whose extent is `2 ^ 32` is scanned for ever, and headers whose
extent is a little more are scanned more often than thirty bytes each would allow.
-/

namespace BenchmarkPlatform.Submissions

open Lib

/-- The number of bytes an entry takes, as a number. -/
def LocalHeader.extent (h : LocalHeader) : ℕ := 30 + h.filenameLen + h.extraLen + h.compressedSize

theorem LocalHeader.stride_eq (h : LocalHeader) : h.stride = h.extent % 2 ^ 32 := rfl

variable {data : List UInt8} {w w' : Walk} {n : ℕ}

/-- The scan makes progress: a round of the loop that does not return leads further into the buffer,
the body of the loop is run at most `length / 30 + 1` times, and the scan ends. -/
structure Progresses (data : List UInt8) : Prop where
  advances : ∀ n w w', after (scanBody data) n .start = some w → scanBody data w = .inl w' →
    w.offset < w'.offset
  iterations : ∀ n w, after (scanBody data) n .start = some w → w.offset + 30 ≤ data.length →
    n < data.length / 30 + 1
  ends : ∃ result, scanZipForBombs (data.length / 30 + 2) data = some result

/-! ## The headers that are passed -/

/-- The first local headers from an offset, at most `n`: each at the place that the sizes of the one
before lead to, as long as the declared sizes, `total` before the first, are within the bound. -/
def chain (data : List UInt8) : ℕ → ℕ → ℕ → List LocalHeader
  | 0, _, _ => []
  | n + 1, offset, total =>
    let h := headerAt data offset
    if HeaderAt data offset ∧ total + h.uncompressedSize ≤ maxUncompressedSize then
      h :: chain data n (offset + h.stride) (total + h.uncompressedSize)
    else []

/-- The headers that the first `n` rounds pass. -/
def passed (data : List UInt8) (n : ℕ) (w : Walk) : List LocalHeader :=
  chain data n w.offset w.totalUncompressed

theorem passed_of_inl (h : scanBody data w = .inl w') (n : ℕ) :
    passed data (n + 1) w = headerAt data w.offset :: passed data n w' := by
  obtain ⟨hheader, hle, rfl⟩ := scanBody_eq_inl_iff.mp h
  exact if_pos ⟨hheader, hle⟩

theorem passed_of_inr {result : Except ScanError Unit} (h : scanBody data w = .inr result) (n : ℕ) :
    passed data n w = [] := by
  cases n with
  | zero => rfl
  | succ n =>
    refine if_neg fun hpass ↦ ?_
    have hbody := scanBody_eq_inl_iff.mpr ⟨hpass.1, hpass.2, rfl⟩
    rw [h] at hbody
    cases hbody

/-- The strides add up to the offset. -/
theorem offset_of_after (h : after (scanBody data) n w = some w') :
    (passed data n w).length = n ∧
      w'.offset = w.offset + ((passed data n w).map LocalHeader.stride).sum := by
  induction n generalizing w with
  | zero =>
    cases h
    exact ⟨rfl, rfl⟩
  | succ n ih =>
    cases hbody : scanBody data w with
    | inr result => rw [after_succ_of_inr hbody] at h; cases h
    | inl v =>
      rw [after_succ_of_inl hbody] at h
      obtain ⟨hlength, hoffset⟩ := ih h
      rw [passed_of_inl hbody, List.length_cons, hlength, hoffset, List.map_cons, List.sum_cons]
      obtain ⟨-, -, rfl⟩ := scanBody_eq_inl_iff.mp hbody
      exact ⟨rfl, Nat.add_assoc _ _ _⟩

/-- Where there are that many headers to pass, the walk is still going. -/
theorem after_of_length_passed (h : (passed data n w).length = n) :
    ∃ w', after (scanBody data) n w = some w' := by
  induction n generalizing w with
  | zero => exact ⟨w, rfl⟩
  | succ n ih =>
    cases hbody : scanBody data w with
    | inr result => rw [passed_of_inr hbody] at h; cases h
    | inl v =>
      rw [passed_of_inl hbody, List.length_cons, Nat.add_right_cancel_iff] at h
      rw [after_succ_of_inl hbody]
      exact ih h

/-- A header is passed in some round. -/
theorem mem_passed_iff {h : LocalHeader} : h ∈ passed data n w ↔
    ∃ k < n, ∃ v v', after (scanBody data) k w = some v ∧ scanBody data v = .inl v' ∧
      headerAt data v.offset = h := by
  induction n generalizing w with
  | zero => simp [passed, chain]
  | succ n ih =>
    cases hbody : scanBody data w with
    | inr result =>
      rw [passed_of_inr hbody]
      refine iff_of_false (List.not_mem_nil) ?_
      rintro ⟨k, -, v, v', hafter, hv, -⟩
      cases k with
      | zero =>
        rw [after_zero, Option.some_inj] at hafter
        rw [← hafter, hbody] at hv
        cases hv
      | succ k =>
        rw [after_succ_of_inr hbody] at hafter
        cases hafter
    | inl u =>
      rw [passed_of_inl hbody, List.mem_cons, ih]
      constructor
      · rintro (rfl | ⟨k, hk, v, v', hafter, hv, hh⟩)
        · exact ⟨0, Nat.succ_pos n, w, u, rfl, hbody, rfl⟩
        · have hafter' := (after_succ_of_inl hbody k).trans hafter
          exact ⟨k + 1, Nat.succ_lt_succ hk, v, v', hafter', hv, hh⟩
      · rintro ⟨k, hk, v, v', hafter, hv, hh⟩
        cases k with
        | zero =>
          rw [after_zero, Option.some_inj] at hafter
          exact .inl (hafter ▸ hh.symm)
        | succ k =>
          rw [after_succ_of_inl hbody] at hafter
          exact .inr ⟨k, Nat.lt_of_succ_lt_succ hk, v, v', hafter, hv, hh⟩

/-! ## When there is progress -/

/-- The four numbers are too small for two wraps. -/
theorem extent_headerAt_lt (data : List UInt8) (offset : ℕ) :
    (headerAt data offset).extent < 2 ^ 33 := by
  have hcompressed := field_lt data (offset + 18) 4
  have hfilename := field_lt data (offset + 26) 2
  have hextra := field_lt data (offset + 28) 2
  simp only [LocalHeader.extent, headerAt]
  omega

/-- A header is stepped over, unless its extent is `2 ^ 32`. -/
theorem stride_headerAt_pos_iff (data : List UInt8) (offset : ℕ) :
    0 < (headerAt data offset).stride ↔ (headerAt data offset).extent ≠ 2 ^ 32 := by
  have hlt := extent_headerAt_lt data offset
  have hge : 30 ≤ (headerAt data offset).extent := by
    simp only [LocalHeader.extent]
    omega
  rw [LocalHeader.stride_eq]
  omega

/-- A round begins in the buffer or is the last one. -/
theorem room_of_inl (h : scanBody data w = .inl w') : w.offset + 30 ≤ data.length :=
  (scanBody_eq_inl_iff.mp h).1.1

theorem offset_lt_iff (h : scanBody data w = .inl w') :
    w.offset < w'.offset ↔ (headerAt data w.offset).extent ≠ 2 ^ 32 := by
  obtain ⟨-, -, rfl⟩ := scanBody_eq_inl_iff.mp h
  rw [← stride_headerAt_pos_iff]
  exact Nat.lt_add_right_iff_pos

/-- The loop ends if its body is not run too often. -/
theorem scan_ends (h : ∀ n w, after (scanBody data) n .start = some w →
    w.offset + 30 ≤ data.length → n < data.length / 30 + 1) :
    ∃ result, scanZipForBombs (data.length / 30 + 2) data = some result := by
  rw [scanZipForBombs]
  split_ifs
  · exact ⟨_, rfl⟩
  · exact ⟨_, rfl⟩
  · exact ⟨_, rfl⟩
  · exact ⟨_, rfl⟩
  · rw [← Option.ne_none_iff_exists']
    intro hnone
    obtain ⟨w', hafter⟩ := loop_eq_none_iff.mp hnone
    obtain ⟨w, hw, hbody⟩ := after_succ_eq_some_iff.mp hafter
    exact lt_irrefl _ (h _ _ hw (room_of_inl hbody))

/-- The first headers of the file, as many as there may be rounds. -/
def firstHeaders (data : List UInt8) : List LocalHeader := chain data (data.length / 30 + 1) 0 0

theorem firstHeaders_eq (data : List UInt8) :
    firstHeaders data = passed data (data.length / 30 + 1) .start := rfl

/-- No header is scanned twice, and headers that use up the rounds lead out of the buffer. -/
theorem progresses_of_lead (hextent : ∀ h ∈ firstHeaders data, h.extent ≠ 2 ^ 32)
    (hlead : (firstHeaders data).length = data.length / 30 + 1 →
      data.length < ((firstHeaders data).map LocalHeader.stride).sum + 30) :
    Progresses data := by
  -- a round after the first ones would begin behind the headers they pass
  have hiterations : ∀ n w, after (scanBody data) n .start = some w →
      w.offset + 30 ≤ data.length → n < data.length / 30 + 1 := by
    intro n w hafter hroom
    by_contra hge
    obtain ⟨v, hv⟩ := exists_after_of_le (not_lt.mp hge) hafter
    obtain ⟨hlength, hoffset⟩ := offset_of_after hv
    have hout : data.length < v.offset + 30 := by
      rw [hoffset, Walk.start, zero_add]
      exact hlead hlength
    rcases (not_lt.mp hge).eq_or_lt with heq | hlt
    · rw [heq, hafter, Option.some_inj] at hv
      rw [hv] at hroom
      exact absurd hroom hout.not_ge
    · obtain ⟨u, hu⟩ := exists_after_of_le (Nat.succ_le_of_lt hlt) hafter
      obtain ⟨v', hv', hbody⟩ := after_succ_eq_some_iff.mp hu
      rw [hv, Option.some_inj] at hv'
      rw [hv'] at hout
      exact absurd (room_of_inl hbody) hout.not_ge
  refine ⟨fun n w w' hafter hbody ↦ ?_, hiterations, scan_ends hiterations⟩
  have hn := hiterations n w hafter (room_of_inl hbody)
  have hmem : headerAt data w.offset ∈ firstHeaders data :=
    mem_passed_iff.mpr ⟨n, hn, w, w', hafter, hbody, rfl⟩
  exact (offset_lt_iff hbody).mpr (hextent _ hmem)

/-- **When the scan makes progress.** Of the first `length / 30 + 1` headers none has the extent
`2 ^ 32`, and if there are so many of them they lead out of the buffer. -/
theorem progresses_iff :
    Progresses data ↔
      (∀ h ∈ firstHeaders data, h.extent ≠ 2 ^ 32) ∧
        ((firstHeaders data).length = data.length / 30 + 1 →
          data.length < ((firstHeaders data).map LocalHeader.stride).sum + 30) := by
  constructor
  · intro hprogress
    constructor
    · intro h hmem
      rw [firstHeaders_eq] at hmem
      obtain ⟨k, -, v, v', hafter, hbody, rfl⟩ := mem_passed_iff.mp hmem
      exact (offset_lt_iff hbody).mp (hprogress.advances k v v' hafter hbody)
    · intro hlength
      rw [firstHeaders_eq] at hlength ⊢
      obtain ⟨w, hafter⟩ := after_of_length_passed hlength
      have hoffset := (offset_of_after hafter).2
      have hstart : Walk.start.offset = 0 := rfl
      by_contra hle
      have hroom : w.offset + 30 ≤ data.length := by omega
      exact lt_irrefl _ (hprogress.iterations _ w hafter hroom)
  · rintro ⟨hextent, hlead⟩
    exact progresses_of_lead hextent hlead

/-- Where no extent wraps, every header is at least thirty bytes further than the one before. -/
theorem progresses_of_extent_lt (h : ∀ h ∈ firstHeaders data, h.extent < 2 ^ 32) :
    Progresses data := by
  refine progresses_of_lead (fun header hmem ↦ (h header hmem).ne) fun hlength ↦ ?_
  have hstride : ∀ stride ∈ (firstHeaders data).map LocalHeader.stride, 30 ≤ stride := by
    intro stride hmem
    obtain ⟨header, hheader, rfl⟩ := List.mem_map.mp hmem
    rw [LocalHeader.stride_eq, Nat.mod_eq_of_lt (h header hheader), LocalHeader.extent]
    omega
  have hsum := List.card_nsmul_le_sum _ 30 hstride
  rw [List.length_map, hlength, Nat.nsmul_eq_mul] at hsum
  omega

/-! ## A scan that does not end -/

/-- A local header, and nothing else, whose extent is `2 ^ 32`. -/
def standstill : List UInt8 :=
  localSignature ++ record [(14, 0), (4, 2 ^ 32 - 30), (4, 0), (2, 0), (2, 0)]

theorem scanBody_standstill (totalCompressed : ℕ) :
    ∃ totalCompressed', scanBody standstill ⟨0, 0, totalCompressed⟩ =
      .inl ⟨0, 0, totalCompressed'⟩ := by
  have hheader : HeaderAt standstill 0 := by decide
  have hfields : headerAt standstill 0 = ⟨2 ^ 32 - 30, 0, 0, 0⟩ := by decide
  have hnext : (Walk.mk 0 0 totalCompressed).next (headerAt standstill 0) =
      ⟨0, 0, (totalCompressed + (2 ^ 32 - 30)) % 2 ^ 64⟩ := by
    rw [hfields]
    rfl
  exact ⟨_, scanBody_eq_inl_iff.mpr ⟨hheader, Nat.zero_le _, hnext⟩⟩

/-- The scan of thirty bytes: no step leads further, and no number of rounds is enough. -/
theorem standstill_not_progresses :
    ¬Progresses standstill ∧ ∀ fuel, scanZipForBombs fuel standstill = none := by
  have hloop : ∀ fuel totalCompressed,
      loop (scanBody standstill) fuel ⟨0, 0, totalCompressed⟩ = none := by
    intro fuel
    induction fuel with
    | zero => exact fun _ ↦ rfl
    | succ fuel ih =>
      intro totalCompressed
      obtain ⟨totalCompressed', hbody⟩ := scanBody_standstill totalCompressed
      rw [loop_of_inl hbody, ih]
  have hscan : ∀ fuel, scanZipForBombs fuel standstill = none := by
    intro fuel
    have hlength : ¬standstill.length < 2 := by decide
    have hmagic : standstill.take 2 ≠ gzipMagic := by decide
    rw [scanZipForBombs, if_neg hlength, if_neg hmagic]
    exact hloop fuel 0
  refine ⟨fun hprogress ↦ ?_, hscan⟩
  obtain ⟨result, hresult⟩ := hprogress.ends
  rw [hscan] at hresult
  cases hresult

end BenchmarkPlatform.Submissions
