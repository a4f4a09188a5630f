import BenchmarkPlatform.Lib.Bytes
import Mathlib.Algebra.Order.Ring.Int
import Mathlib.Data.Nat.Find

/-!
# The check for static linking

A submitted binary is looked through for a program header that names a dynamic linker. Where the
program headers are, how long and how many they are is read from the upload, and one comparison is
to keep the loop over them in the buffer: it is made in the unsigned type of the offset, with a
product that is a signed `int`.

A read outside of the buffer has no result; the check then has none either
(`isElfStaticallyLinked data = none`).
-/

namespace BenchmarkPlatform.Submissions

open Lib

/-! ## The check -/

inductive ElfError
  | invalidSize
  | notElf
  | corruptedTable
  | dynamicallyLinked
  | unsupportedClass
  deriving DecidableEq, Repr

/-- The text for the client. -/
def ElfError.message : ElfError → String
  | .invalidSize => "Invalid ELF file size"
  | .notElf => "Not an ELF binary"
  | .corruptedTable => "Corrupted ELF program header table layout"
  | .dynamicallyLinked => "Security constraint: Dynamically linked ELF rejected " ++
      "(contains PT_INTERP dynamic linker path)"
  | .unsupportedClass => "Unsupported ELF class"

def elfMagic : List UInt8 := [0x7F, 0x45, 0x4C, 0x46]

/-- The product of two numbers that were promoted to `int`. -/
def intMul (a b : ℕ) : ℤ := Int.bmod (a * b) (2 ^ 32)

/-- An `int` is added to an unsigned number of so many bits. -/
def addInt (bits a : ℕ) (x : ℤ) : ℕ := ((a + x) % 2 ^ bits).toNat

/-- The fields of the file header that say where the program headers are. -/
structure ProgramHeaders where
  phoff : ℕ
  phentsize : ℕ
  phnum : ℕ
  deriving DecidableEq, Repr

/-- `phoff + (phnum * phentsize)` -/
def ProgramHeaders.tableEnd (bits : ℕ) (t : ProgramHeaders) : ℕ :=
  addInt bits t.phoff (intMul t.phnum t.phentsize)

/-- `phoff + (i * phentsize)` -/
def ProgramHeaders.entryOffset (bits : ℕ) (t : ProgramHeaders) (i : ℕ) : ℕ :=
  addInt bits t.phoff (intMul i t.phentsize)

/-- Four bytes of the buffer. -/
def readWord (data : List UInt8) (offset : ℕ) : Option ℕ :=
  if offset + 4 ≤ data.length then some (field data offset 4) else none

/-- The loop over the program headers from number `i` on, with so many left. -/
def checkEntries (data : List UInt8) (offset : ℕ → ℕ) :
    ℕ → ℕ → Option (Except ElfError Unit)
  | _, 0 => some (.ok ())
  | i, left + 1 =>
    match readWord data (offset i) with
    | none => none
    | some pType =>
      if pType = 3 then some (.error .dynamicallyLinked)
      else checkEntries data offset (i + 1) left

def checkProgramHeaders (bits : ℕ) (data : List UInt8) (t : ProgramHeaders) :
    Option (Except ElfError Unit) :=
  if data.length < t.tableEnd bits then some (.error .corruptedTable)
  else checkEntries data (t.entryOffset bits) 0 t.phnum

def elf64Headers (data : List UInt8) : ProgramHeaders where
  phoff := field data 32 8
  phentsize := field data 54 2
  phnum := field data 56 2

def elf32Headers (data : List UInt8) : ProgramHeaders where
  phoff := field data 28 4
  phentsize := field data 42 2
  phnum := field data 44 2

def isElfStaticallyLinked (data : List UInt8) : Option (Except ElfError Unit) :=
  if data.length < 64 then some (.error .invalidSize)
  else if data.take 4 ≠ elfMagic then some (.error .notElf)
  else if field data 4 1 = 2 then checkProgramHeaders 64 data (elf64Headers data)
  else if field data 4 1 = 1 then checkProgramHeaders 32 data (elf32Headers data)
  else some (.error .unsupportedClass)

/-! ## The loop -/

variable {data : List UInt8} {bits : ℕ} {t : ProgramHeaders}

theorem readWord_eq_none_iff {offset : ℕ} :
    readWord data offset = none ↔ data.length < offset + 4 := by
  rw [readWord]
  split_ifs with h
  · exact iff_of_false not_false h.not_gt
  · exact iff_of_true rfl (not_le.mp h)

/-- A word that is read, and does not end the loop. -/
def GoesOn (data : List UInt8) (offset : ℕ) : Prop :=
  offset + 4 ≤ data.length ∧ field data offset 4 ≠ 3

/-- The loop reads outside of the buffer if some entry is outside and it goes on up to there. -/
theorem checkEntries_eq_none_iff {offset : ℕ → ℕ} {i left : ℕ} :
    checkEntries data offset i left = none ↔
      ∃ k, i ≤ k ∧ k < i + left ∧ (∀ j, i ≤ j → j < k → GoesOn data (offset j)) ∧
        data.length < offset k + 4 := by
  induction left generalizing i with
  | zero =>
    refine iff_of_false (Option.some_ne_none _) ?_
    rintro ⟨k, hik, hki, -⟩
    omega
  | succ left ih =>
    rw [checkEntries]
    by_cases hin : offset i + 4 ≤ data.length
    · have hread : readWord data (offset i) = some (field data (offset i) 4) := if_pos hin
      rw [hread]
      dsimp only
      split_ifs with htype
      · -- the loop ends here, so that no later entry counts
        refine iff_of_false (by simp) ?_
        rintro ⟨k, hik, -, hgoes, hout⟩
        rcases hik.eq_or_lt with rfl | hlt
        · exact hout.not_ge hin
        · exact (hgoes i le_rfl hlt).2 htype
      · rw [ih]
        constructor
        · rintro ⟨k, hik, hki, hgoes, hout⟩
          refine ⟨k, by omega, by omega, fun j hij hjk ↦ ?_, hout⟩
          rcases hij.eq_or_lt with rfl | hlt
          · exact ⟨hin, htype⟩
          · exact hgoes j hlt hjk
        · rintro ⟨k, hik, hki, hgoes, hout⟩
          have hne : i ≠ k := by
            rintro rfl
            exact hout.not_ge hin
          exact ⟨k, by omega, by omega, fun j hij hjk ↦ hgoes j (by omega) hjk, hout⟩
    · rw [readWord_eq_none_iff.mpr (not_le.mp hin)]
      exact iff_of_true rfl ⟨i, le_rfl, by omega, fun j hij hji ↦ by omega, not_le.mp hin⟩

/-! ## Offsets as numbers -/

/-- The offset of an entry, as a number. -/
def ProgramHeaders.place (t : ProgramHeaders) (i : ℕ) : ℕ := t.phoff + i * t.phentsize

theorem ProgramHeaders.place_mono (t : ProgramHeaders) : Monotone t.place :=
  fun _ _ h ↦ Nat.add_le_add_left (Nat.mul_le_mul_right _ h) _

theorem intMul_of_lt {a b : ℕ} (h : a * b < 2 ^ 31) : intMul a b = (a * b : ℕ) := by
  have hmul : intMul a b = Int.bmod (a * b : ℕ) (2 ^ 32) :=
    congrArg (fun n : ℤ ↦ Int.bmod n (2 ^ 32)) (Nat.cast_mul a b).symm
  rw [hmul]
  generalize a * b = n at h
  exact Int.bmod_eq_of_le_mul_two (by omega) (by omega)

theorem addInt_natCast {a n : ℕ} (h : a + n < 2 ^ bits) : addInt bits a n = a + n := by
  have hmod : ((a : ℤ) + n) % 2 ^ bits = (a + n : ℕ) := by
    rw [← Nat.cast_add]
    exact_mod_cast Nat.mod_eq_of_lt h
  rw [addInt, hmod, Int.toNat_natCast]

/-- Nothing wraps below `2 ^ 31`. -/
theorem ProgramHeaders.entryOffset_eq_place (hbits : 31 ≤ bits) {i : ℕ} (h : t.place i < 2 ^ 31) :
    t.entryOffset bits i = t.place i := by
  have hproduct : i * t.phentsize < 2 ^ 31 := (Nat.le_add_left _ _).trans_lt h
  rw [entryOffset, intMul_of_lt hproduct]
  exact addInt_natCast (h.trans_le (Nat.pow_le_pow_right two_pos hbits))

/-- The first entry is at `phoff`, however large that is. -/
theorem ProgramHeaders.entryOffset_zero (h : t.phoff < 2 ^ bits) :
    t.entryOffset bits 0 = t.place 0 := by
  have hproduct : 0 * t.phentsize < 2 ^ 31 := by omega
  rw [entryOffset, intMul_of_lt hproduct]
  exact addInt_natCast (by omega)

/-! ## When the reads are in the buffer -/

/-- The body of an upload is limited to 600 MB. -/
def clientMaxBodySize : ℕ := 1024 * 1024 * 600

/-- The comparison rejects the table, or there are no entries, or the last one is in the buffer, or
the loop ends at one before an entry that is not. -/
def ProgramHeaders.Inside (bits : ℕ) (data : List UInt8) (t : ProgramHeaders) : Prop :=
  data.length < t.tableEnd bits ∨ t.phnum = 0 ∨ t.place (t.phnum - 1) + 4 ≤ data.length ∨
    ∃ i < t.phnum, t.place i + 4 ≤ data.length ∧ field data (t.place i) 4 = 3

section

variable (hbits : 31 ≤ bits) (hphoff : t.phoff < 2 ^ bits) (hphentsize : t.phentsize < 2 ^ 16)
  (hlength : data.length ≤ clientMaxBodySize)
include hbits hlength

theorem entryOffset_of_le {i : ℕ} (h : t.place i + 4 ≤ data.length) :
    t.entryOffset bits i = t.place i := by
  refine t.entryOffset_eq_place hbits ?_
  rw [clientMaxBodySize] at hlength
  omega

include hphoff hphentsize

/-- An entry behind entries in the buffer is where it should be: it is too near to them for a
number that wraps. -/
theorem entryOffset_of_forall_lt {i : ℕ} (h : ∀ j < i, t.place j + 4 ≤ data.length) :
    t.entryOffset bits i = t.place i := by
  cases i with
  | zero => exact t.entryOffset_zero hphoff
  | succ i =>
    have hprevious := h i i.lt_succ_self
    have hplace : t.place (i + 1) = t.place i + t.phentsize := by
      rw [ProgramHeaders.place, ProgramHeaders.place, Nat.add_one_mul, add_assoc]
    refine t.entryOffset_eq_place hbits ?_
    rw [clientMaxBodySize] at hlength
    omega

/-- The loop stays in the buffer just when the last entry is there or an entry before ends it. -/
theorem checkEntries_ne_none_iff {n : ℕ} :
    checkEntries data (t.entryOffset bits) 0 n ≠ none ↔
      n = 0 ∨ t.place (n - 1) + 4 ≤ data.length ∨
        ∃ i < n, t.place i + 4 ≤ data.length ∧ field data (t.place i) 4 = 3 := by
  rw [Ne, checkEntries_eq_none_iff]
  constructor
  · intro hread
    by_contra hnone
    push Not at hnone
    obtain ⟨hn, hlast, hinterp⟩ := hnone
    -- the first entry that is not in the buffer
    have hout : ∃ k, data.length < t.place k + 4 := ⟨n - 1, hlast⟩
    classical
    set k := Nat.find hout with hk
    have hkn : k ≤ n - 1 := Nat.find_min' hout hlast
    have hbefore : ∀ j < k, t.place j + 4 ≤ data.length :=
      fun j hj ↦ not_lt.mp (Nat.find_min hout hj)
    refine hread ⟨k, Nat.zero_le k, by omega, fun j _ hj ↦ ?_, ?_⟩
    · have hin := hbefore j hj
      rw [GoesOn, entryOffset_of_le hbits hlength hin]
      exact ⟨hin, hinterp j (by omega) hin⟩
    · rw [entryOffset_of_forall_lt hbits hphoff hphentsize hlength hbefore]
      exact Nat.find_spec hout
  · rintro hinside ⟨k, -, hkn, hgoes, hout⟩
    rw [zero_add] at hkn
    -- an entry outside of the buffer is behind every entry that is inside
    have hbehind : ∀ i, t.place i + 4 ≤ data.length → i < k := by
      intro i hi
      by_contra hge
      have hle : t.place k + 4 ≤ data.length :=
        (Nat.add_le_add_right (t.place_mono (not_lt.mp hge)) 4).trans hi
      rw [entryOffset_of_le hbits hlength hle] at hout
      exact hout.not_ge hle
    obtain rfl | hlast | ⟨i, -, hi, htype⟩ := hinside
    · omega
    · have hlt := hbehind (n - 1) hlast
      omega
    · have hgo := (hgoes i (Nat.zero_le i) (hbehind i hi)).2
      rw [entryOffset_of_le hbits hlength hi] at hgo
      exact hgo htype

theorem checkProgramHeaders_ne_none_iff :
    checkProgramHeaders bits data t ≠ none ↔ t.Inside bits data := by
  rw [checkProgramHeaders, ProgramHeaders.Inside]
  split_ifs with hend
  · exact iff_of_true (by simp) (.inl hend)
  · rw [checkEntries_ne_none_iff hbits hphoff hphentsize hlength, or_iff_right hend]

end

/-- **When the check reads only inside the buffer.** -/
theorem isElfStaticallyLinked_ne_none_iff (hlength : data.length ≤ clientMaxBodySize) :
    isElfStaticallyLinked data ≠ none ↔
      (64 ≤ data.length → data.take 4 = elfMagic →
        (field data 4 1 = 2 → (elf64Headers data).Inside 64 data) ∧
          (field data 4 1 = 1 → (elf32Headers data).Inside 32 data)) := by
  have h64 : checkProgramHeaders 64 data (elf64Headers data) ≠ none ↔
      (elf64Headers data).Inside 64 data :=
    checkProgramHeaders_ne_none_iff (by omega) (field_lt data 32 8) (field_lt data 54 2) hlength
  have h32 : checkProgramHeaders 32 data (elf32Headers data) ≠ none ↔
      (elf32Headers data).Inside 32 data :=
    checkProgramHeaders_ne_none_iff (by omega) (field_lt data 28 4) (field_lt data 42 2) hlength
  rw [isElfStaticallyLinked]
  split_ifs with hshort hmagic hclass hclass'
  · exact iff_of_true (by simp) fun h ↦ absurd h hshort.not_ge
  · exact iff_of_true (by simp) fun _ h ↦ absurd h hmagic
  · rw [h64, hclass]
    simp [not_lt.mp hshort, not_not.mp hmagic]
  · rw [h32, hclass']
    simp [not_lt.mp hshort, not_not.mp hmagic]
  · exact iff_of_true (by simp) fun _ _ ↦ ⟨fun h ↦ absurd h hclass, fun h ↦ absurd h hclass'⟩

/-- A file header of 64 bytes, whose one program header is at its end and has no length. -/
def entryAtEnd : List UInt8 :=
  elfMagic ++ record [(1, 2), (27, 0), (8, 64), (14, 0), (2, 0), (2, 1), (6, 0)]

theorem entryAtEnd_ne_none_iff :
    isElfStaticallyLinked entryAtEnd ≠ none ↔
      (64 ≤ entryAtEnd.length → entryAtEnd.take 4 = elfMagic →
        (field entryAtEnd 4 1 = 2 → (elf64Headers entryAtEnd).Inside 64 entryAtEnd) ∧
          (field entryAtEnd 4 1 = 1 → (elf32Headers entryAtEnd).Inside 32 entryAtEnd)) :=
  isElfStaticallyLinked_ne_none_iff (by decide)

/-- The comparison lets it pass, and the loop reads behind it. -/
theorem isElfStaticallyLinked_entryAtEnd :
    64 ≤ entryAtEnd.length ∧ entryAtEnd.length ≤ clientMaxBodySize ∧
      isElfStaticallyLinked entryAtEnd = none := by
  decide

/-! ## What the check says of a table in the buffer -/

/-- The loop finds nothing just when it goes on at every entry. -/
theorem checkEntries_eq_ok_iff {offset : ℕ → ℕ} {i left : ℕ} :
    checkEntries data offset i left = some (.ok ()) ↔
      ∀ j, i ≤ j → j < i + left → GoesOn data (offset j) := by
  induction left generalizing i with
  | zero =>
    refine iff_of_true rfl ?_
    intro j hij hji
    omega
  | succ left ih =>
    have hfirst : (∀ j, i ≤ j → j < i + (left + 1) → GoesOn data (offset j)) ↔
        GoesOn data (offset i) ∧ ∀ j, i + 1 ≤ j → j < i + 1 + left → GoesOn data (offset j) := by
      constructor
      · intro h
        exact ⟨h i le_rfl (by omega), fun j hij hji ↦ h j (by omega) (by omega)⟩
      · rintro ⟨hi, h⟩ j hij hji
        rcases hij.eq_or_lt with rfl | hlt
        · exact hi
        · exact h j hlt (by omega)
    rw [hfirst, checkEntries, readWord]
    by_cases hin : offset i + 4 ≤ data.length
    · rw [if_pos hin]
      dsimp only
      split_ifs with htype
      · exact iff_of_false (by simp) fun h ↦ h.1.2 htype
      · rw [ih]
        exact (and_iff_right ⟨hin, htype⟩).symm
    · rw [if_neg hin]
      exact iff_of_false (by simp) fun h ↦ hin h.1.1

/-- A table of entries long enough to read, all of it in the buffer. -/
structure ProgramHeaders.Within (data : List UInt8) (t : ProgramHeaders) : Prop where
  phentsize_le : 4 ≤ t.phentsize
  end_le : t.phoff + t.phnum * t.phentsize ≤ data.length

theorem ProgramHeaders.Within.place_le (h : t.Within data) {i : ℕ} (hi : i < t.phnum) :
    t.place i + 4 ≤ data.length := by
  have hnext : (i + 1) * t.phentsize ≤ t.phnum * t.phentsize := Nat.mul_le_mul_right _ hi
  have hsize := h.phentsize_le
  have hend := h.end_le
  rw [Nat.add_one_mul] at hnext
  rw [place]
  omega

/-- The loop comes to the last entry of such a table, and what it says is right. -/
theorem checkProgramHeaders_of_within (hbits : 31 ≤ bits)
    (hlength : data.length ≤ clientMaxBodySize) (h : t.Within data) :
    checkProgramHeaders bits data t ≠ none ∧
      (checkProgramHeaders bits data t = some (.ok ()) ↔
        ∀ i < t.phnum, field data (t.phoff + i * t.phentsize) 4 ≠ 3) := by
  have hoffset : ∀ i < t.phnum, t.entryOffset bits i = t.place i :=
    fun i hi ↦ entryOffset_of_le hbits hlength (h.place_le hi)
  have hend : ¬ data.length < t.tableEnd bits := by
    have htable := h.end_le
    have hpow : 2 ^ 31 ≤ 2 ^ bits := Nat.pow_le_pow_right two_pos hbits
    have hsmall : t.phoff + t.phnum * t.phentsize < 2 ^ 31 := by
      rw [clientMaxBodySize] at hlength
      omega
    rw [ProgramHeaders.tableEnd, intMul_of_lt ((Nat.le_add_left _ _).trans_lt hsmall),
      addInt_natCast (hsmall.trans_le hpow)]
    exact htable.not_gt
  rw [checkProgramHeaders, if_neg hend]
  constructor
  · rw [Ne, checkEntries_eq_none_iff]
    rintro ⟨k, -, hk, -, hout⟩
    rw [zero_add] at hk
    rw [hoffset k hk] at hout
    exact hout.not_ge (h.place_le hk)
  · rw [checkEntries_eq_ok_iff]
    constructor
    · intro hgoes i hi
      have hgo := (hgoes i (Nat.zero_le i) (by omega)).2
      rwa [hoffset i hi] at hgo
    · intro htypes i _ hi
      rw [zero_add] at hi
      rw [hoffset i hi]
      exact ⟨h.place_le hi, htypes i hi⟩

/-- **The check is exact where the table is in the buffer.** It reads only inside the buffer, and
lets a binary pass just when no program header names a dynamic linker. -/
theorem isElfStaticallyLinked_exact (hmin : 64 ≤ data.length)
    (hmax : data.length ≤ clientMaxBodySize) (hmagic : data.take 4 = elfMagic)
    (hclass : field data 4 1 = 1 ∧ t = elf32Headers data ∨
      field data 4 1 = 2 ∧ t = elf64Headers data)
    (hphentsize : 4 ≤ t.phentsize) (htable : t.phoff + t.phnum * t.phentsize ≤ data.length) :
    isElfStaticallyLinked data ≠ none ∧
      (isElfStaticallyLinked data = some (.ok ()) ↔
        ∀ i < t.phnum, field data (t.phoff + i * t.phentsize) 4 ≠ 3) := by
  rw [isElfStaticallyLinked, if_neg hmin.not_gt, if_neg (not_not_intro hmagic)]
  rcases hclass with ⟨hclass, rfl⟩ | ⟨hclass, rfl⟩
  · rw [if_neg (by omega), if_pos hclass]
    exact checkProgramHeaders_of_within (by omega) hmax ⟨hphentsize, htable⟩
  · rw [if_pos hclass]
    exact checkProgramHeaders_of_within (by omega) hmax ⟨hphentsize, htable⟩

/-- The file header of a 32-bit binary and one program header, which names a dynamic linker. -/
def interpreted : List UInt8 :=
  elfMagic ++ record [(1, 1), (23, 0), (4, 52), (10, 0), (2, 32), (2, 1), (6, 0), (4, 3), (28, 0)]

theorem interpreted_exact :
    isElfStaticallyLinked interpreted ≠ none ∧
      (isElfStaticallyLinked interpreted = some (.ok ()) ↔
        ∀ i < (elf32Headers interpreted).phnum, field interpreted
          ((elf32Headers interpreted).phoff + i * (elf32Headers interpreted).phentsize) 4 ≠ 3) :=
  isElfStaticallyLinked_exact (by decide) (by decide) (by decide) (.inl ⟨by decide, rfl⟩)
    (by decide) (by decide)

end BenchmarkPlatform.Submissions
