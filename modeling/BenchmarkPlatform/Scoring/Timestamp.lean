import Mathlib.Data.Rat.Floor
import BenchmarkPlatform.Lib.Calendar

/-!
# Time stamps

`format_timestamp` writes the whole seconds of a time with `strftime` and puts the remaining
nanoseconds behind the point, without leading zeros. Read back as a decimal fraction they are
nanoseconds only when there are nine digits, or when there is nothing but a zero. `readTimestamp` is
such a reader, of a date, a time of day and a fraction of a second.
-/

namespace BenchmarkPlatform.Scoring

open Lib

/-! ## Writing -/

/-- A field of two digits of `strftime`. -/
def pad2 (n : ℕ) : String := String.ofList [(n / 10).digitChar, (n % 10).digitChar]

/-- `strftime` with the format `%Y-%m-%d %H:%M:%S`. -/
def strftime (tm : Moment) : String :=
  toString tm.date.year ++ "-" ++ pad2 tm.date.month ++ "-" ++ pad2 tm.date.day ++ " "
    ++ pad2 tm.hour ++ ":" ++ pad2 tm.minute ++ ":" ++ pad2 tm.second

/-- `format_timestamp`; the time point is in nanoseconds, `to_time_t` truncates it, and `gmtime_r`
is `momentOf`. -/
def formatTimestamp (ns : ℤ) : String :=
  let seconds := ns.tdiv 1000000000
  let nanoseconds := ns.tmod 1000000000
  let tp := seconds * 1000000000 + nanoseconds
  let timeC := tp.tdiv 1000000000
  strftime (momentOf timeC) ++ "." ++ toString nanoseconds ++ "+00"

/-! ## Reading -/

/-- Digits and the character behind them. -/
def readField (c : Char) (cs : List Char) : Option (List Char × List Char) :=
  match cs.dropWhile Char.isDigit with
  | [] => none
  | d :: rest =>
    if cs.takeWhile Char.isDigit ≠ [] ∧ d = c then some (cs.takeWhile Char.isDigit, rest) else none

def number (digits : List Char) : ℕ := Nat.ofDigitChars 10 digits 0

/-- The seconds since the epoch that a text denotes, read as a date and a time of day with a decimal
fraction of a second, in UTC. -/
def readTimestamp (text : String) : Option ℚ := do
  let (year, cs) ← readField '-' text.toList
  let (month, cs) ← readField '-' cs
  let (day, cs) ← readField ' ' cs
  let (hour, cs) ← readField ':' cs
  let (minute, cs) ← readField ':' cs
  let (second, cs) ← readField '.' cs
  let (fraction, cs) ← readField '+' cs
  let moment : Moment :=
    ⟨⟨number year, number month, number day⟩, number hour, number minute, number second⟩
  if moment.Valid ∧ cs = ['0', '0'] then
    some ((moment.toSeconds : ℚ) + number fraction / 10 ^ fraction.length)
  else none

theorem readField_append {c : Char} (hc : c.isDigit = false) {digits : List Char}
    (hne : digits ≠ []) (hdigits : ∀ d ∈ digits, d.isDigit = true) (rest : List Char) :
    readField c (digits ++ c :: rest) = some (digits, rest) := by
  have htake : (digits ++ c :: rest).takeWhile Char.isDigit = digits := by
    rw [List.takeWhile_append_of_pos hdigits, List.takeWhile_cons_of_neg (by simp [hc]),
      List.append_nil]
  have hdrop : (digits ++ c :: rest).dropWhile Char.isDigit = c :: rest := by
    rw [List.dropWhile_append_of_pos hdigits, List.dropWhile_cons_of_neg (by simp [hc])]
  rw [readField, hdrop, htake]
  exact if_pos ⟨hne, rfl⟩

/-- A field of two digits is read back. -/
theorem readField_pad2 {c : Char} (hc : c.isDigit = false) {n : ℕ} (hn : n < 100) :
    ∃ digits, number digits = n ∧
      ∀ rest, readField c ((pad2 n).toList ++ c :: rest) = some (digits, rest) := by
  have hdigits : ∀ d ∈ (pad2 n).toList, d.isDigit = true := by
    intro d hd
    rw [pad2, String.toList_ofList] at hd
    simp only [List.mem_cons, List.not_mem_nil, or_false] at hd
    rcases hd with rfl | rfl
    · rw [Nat.isDigit_digitChar]
      exact decide_eq_true (by omega)
    · rw [Nat.isDigit_digitChar]
      exact decide_eq_true (by omega)
  have hne : (pad2 n).toList ≠ [] := by simp [pad2]
  refine ⟨_, ?_, readField_append hc hne hdigits⟩
  rw [pad2, String.toList_ofList, number, Nat.ofDigitChars_cons_digitChar_of_lt_ten (by omega),
    Nat.ofDigitChars_cons_digitChar_of_lt_ten (by omega), Nat.ofDigitChars_nil]
  omega

/-- A number is read back. -/
theorem readField_toString {c : Char} (hc : c.isDigit = false) (n : ℕ) (rest : List Char) :
    readField c ((toString n).toList ++ c :: rest) = some (Nat.toDigits 10 n, rest) := by
  rw [Nat.toString_eq_repr, Nat.toList_repr]
  apply readField_append hc Nat.toDigits_ne_nil
  intro d hd
  exact Nat.isDigit_of_mem_toDigits (by decide) (by decide) hd

theorem number_toDigits (n : ℕ) : number (Nat.toDigits 10 n) = n := Nat.ofDigitChars_ten_toDigits

/-- What is written of a moment, and any number behind the point, is read as that moment and that
number as a fraction. -/
theorem readTimestamp_strftime {tm : Moment} (hvalid : tm.Valid) (hyear : 0 ≤ tm.date.year)
    (n : ℕ) : readTimestamp (strftime tm ++ "." ++ toString n ++ "+00")
      = some ((tm.toSeconds : ℚ) + n / 10 ^ (Nat.toDigits 10 n).length) := by
  obtain ⟨⟨y, month, day⟩, hour, minute, second⟩ := tm
  obtain ⟨year, rfl⟩ := Int.eq_ofNat_of_zero_le hyear
  obtain ⟨hmonth, hday⟩ := hvalid.1.le
  obtain ⟨-, hhour, hminute, hsecond⟩ := id hvalid
  dsimp only at hmonth hday hhour hminute hsecond
  have hcast : toString (year : ℤ) = toString year := rfl
  have htext : (strftime ⟨⟨year, month, day⟩, hour, minute, second⟩ ++ "." ++ toString n
      ++ "+00").toList = (toString year).toList ++ '-' :: ((pad2 month).toList ++ '-' ::
        ((pad2 day).toList ++ ' ' :: ((pad2 hour).toList ++ ':' :: ((pad2 minute).toList ++ ':' ::
          ((pad2 second).toList ++ '.' :: ((toString n).toList ++ '+' :: ['0', '0'])))))) := by
    simp [strftime, hcast]
  obtain ⟨monthDigits, rfl, hmonthRead⟩ := readField_pad2 (c := '-') rfl (by omega : month < 100)
  obtain ⟨dayDigits, rfl, hdayRead⟩ := readField_pad2 (c := ' ') rfl (by omega : day < 100)
  obtain ⟨hourDigits, rfl, hhourRead⟩ := readField_pad2 (c := ':') rfl (by omega : hour < 100)
  obtain ⟨minuteDigits, rfl, hminuteRead⟩ :=
    readField_pad2 (c := ':') rfl (by omega : minute < 100)
  obtain ⟨secondDigits, rfl, hsecondRead⟩ :=
    readField_pad2 (c := '.') rfl (by omega : second < 100)
  rw [readTimestamp, htext, readField_toString rfl]
  simp only [Option.bind_eq_bind, Option.bind_some, hmonthRead, hdayRead, hhourRead, hminuteRead,
    hsecondRead, readField_toString (c := '+') rfl, number_toDigits]
  rw [if_pos ⟨hvalid, trivial⟩]

/-! ## What is read of what is written -/

/-- The digits behind the point. -/
def fractionDigits (ns : ℤ) : ℕ := (Nat.toDigits 10 (ns % 10 ^ 9).toNat).length

/-- **What a time stamp denotes**: the whole seconds, and the nanoseconds read as a fraction of as
many digits as they have. -/
theorem readTimestamp_formatTimestamp {ns : ℤ} (h : 0 ≤ ns) :
    readTimestamp (formatTimestamp ns)
      = some (((ns / 10 ^ 9 : ℤ) : ℚ) + (ns % 10 ^ 9 : ℤ) / 10 ^ fractionDigits ns) := by
  have hseconds : (ns.tdiv 1000000000 * 1000000000 + ns.tmod 1000000000).tdiv 1000000000
      = ns / 10 ^ 9 := by
    rw [mul_comm, Int.mul_tdiv_add_tmod, Int.tdiv_eq_ediv_of_nonneg h]
    rfl
  obtain ⟨n, hn⟩ := Int.eq_ofNat_of_zero_le (Int.emod_nonneg ns (by decide : (10 : ℤ) ^ 9 ≠ 0))
  have hnanoseconds : ns.tmod 1000000000 = (n : ℤ) := by
    rw [Int.tmod_eq_emod_of_nonneg h]
    exact hn
  have hyear : 0 ≤ (momentOf (ns / 10 ^ 9)).date.year :=
    (by decide : (0 : ℤ) ≤ 1970).trans (year_dateOf (by omega : 0 ≤ ns / 10 ^ 9 / 86400))
  have hcast : toString (n : ℤ) = toString n := rfl
  rw [formatTimestamp, hseconds, hnanoseconds, hcast,
    readTimestamp_strftime (momentOf_valid _) hyear, toSeconds_momentOf, fractionDigits, hn]
  rfl

theorem lt_pow_fractionDigits (ns : ℤ) : ns % 10 ^ 9 < 10 ^ fractionDigits ns := by
  have hlt : (ns % 10 ^ 9).toNat < 10 ^ fractionDigits ns :=
    (Nat.length_toDigits_le_iff (by decide) Nat.length_toDigits_pos).mp le_rfl
  have hcast : ((ns % 10 ^ 9).toNat : ℤ) < 10 ^ fractionDigits ns := by exact_mod_cast hlt
  omega

/-- Nine digits are those of a tenth of a second or more. -/
theorem fractionDigits_eq_nine_iff (ns : ℤ) : fractionDigits ns = 9 ↔ 10 ^ 8 ≤ ns % 10 ^ 9 := by
  have hnine : fractionDigits ns ≤ 9 ↔ (ns % 10 ^ 9).toNat < 10 ^ 9 :=
    Nat.length_toDigits_le_iff (by decide) (by decide)
  have height : fractionDigits ns ≤ 8 ↔ (ns % 10 ^ 9).toNat < 10 ^ 8 :=
    Nat.length_toDigits_le_iff (by decide) (by decide)
  omega

/-- A fraction of a second that is read with as many digits as it has is below a second. -/
theorem fraction_mem (ns : ℤ) : 0 ≤ ((ns % 10 ^ 9 : ℤ) : ℚ) / 10 ^ fractionDigits ns ∧
    ((ns % 10 ^ 9 : ℤ) : ℚ) / 10 ^ fractionDigits ns < 1 := by
  have hnonneg : (0 : ℚ) ≤ (ns % 10 ^ 9 : ℤ) := by exact_mod_cast Int.emod_nonneg ns (by decide)
  have hlt : ((ns % 10 ^ 9 : ℤ) : ℚ) < 10 ^ fractionDigits ns := by
    exact_mod_cast lt_pow_fractionDigits ns
  exact ⟨by positivity, (div_lt_one (by positivity)).mpr hlt⟩

/-- A time stamp denotes its time when there are no nanoseconds behind the seconds, or nine digits
of them. -/
theorem readTimestamp_eq_iff {ns : ℤ} (h : 0 ≤ ns) :
    readTimestamp (formatTimestamp ns) = some ((ns : ℚ) / 10 ^ 9) ↔
      ns % 10 ^ 9 = 0 ∨ 10 ^ 8 ≤ ns % 10 ^ 9 := by
  have hsplit : (ns : ℚ) / 10 ^ 9 = (ns / 10 ^ 9 : ℤ) + ((ns % 10 ^ 9 : ℤ) : ℚ) / 10 ^ 9 := by
    have hdiv : ((ns / 10 ^ 9 * 10 ^ 9 + ns % 10 ^ 9 : ℤ) : ℚ) = ns := by
      rw [Int.ediv_mul_add_emod]
    rw [← hdiv]
    push_cast
    ring
  rw [readTimestamp_formatTimestamp h, hsplit, Option.some_inj, add_right_inj,
    ← fractionDigits_eq_nine_iff]
  rcases eq_or_ne (ns % 10 ^ 9) 0 with hzero | hne
  · rw [hzero]
    simp
  · have hneq : ((ns % 10 ^ 9 : ℤ) : ℚ) ≠ 0 := by exact_mod_cast hne
    rw [div_eq_div_iff (by positivity) (by positivity), mul_right_inj' hneq,
      pow_right_inj₀ (by norm_num) (by norm_num), or_iff_right hne, eq_comm]

/-! ## Order -/

/-- The first text denotes an earlier time than the second. -/
def Earlier (text text' : String) : Prop :=
  ∃ t t', readTimestamp text = some t ∧ readTimestamp text' = some t' ∧ t < t'

/-- **When time stamps keep the order of their times**: when the times are in different seconds, or
the fractions that are read are in order. -/
theorem earlier_formatTimestamp_iff {ns ns' : ℤ} (h : 0 ≤ ns) (hlt : ns < ns') :
    Earlier (formatTimestamp ns) (formatTimestamp ns') ↔ ns / 10 ^ 9 < ns' / 10 ^ 9 ∨
      ns % 10 ^ 9 * 10 ^ fractionDigits ns' < ns' % 10 ^ 9 * 10 ^ fractionDigits ns := by
  have hread := readTimestamp_formatTimestamp h
  have hread' := readTimestamp_formatTimestamp (h.trans hlt.le)
  have hle : ns / 10 ^ 9 ≤ ns' / 10 ^ 9 := by omega
  have hearlier : Earlier (formatTimestamp ns) (formatTimestamp ns') ↔
      ((ns / 10 ^ 9 : ℤ) : ℚ) + (ns % 10 ^ 9 : ℤ) / 10 ^ fractionDigits ns
        < ((ns' / 10 ^ 9 : ℤ) : ℚ) + (ns' % 10 ^ 9 : ℤ) / 10 ^ fractionDigits ns' := by
    rw [Earlier, hread, hread']
    simp only [Option.some_inj, exists_and_left, exists_eq_left']
  rw [hearlier]
  rcases hle.lt_or_eq with hseconds | hseconds
  · have hbelow := (fraction_mem ns).2
    have hnonneg := (fraction_mem ns').1
    have hnext : ((ns / 10 ^ 9 : ℤ) : ℚ) + 1 ≤ (ns' / 10 ^ 9 : ℤ) := by exact_mod_cast hseconds
    exact iff_of_true (by linarith) (Or.inl hseconds)
  · rw [hseconds, add_lt_add_iff_left, div_lt_div_iff₀ (by positivity) (by positivity),
      or_iff_right (lt_irrefl _)]
    exact_mod_cast Iff.rfl

/-- **When a time stamp is faithful**: when there are no nanoseconds behind the seconds, or at least
a tenth of a second. It comes before a later one just when the seconds differ or the fractions that
are read are in order. -/
theorem formatTimestamp_faithful_iff {ns : ℤ} (h : 0 ≤ ns) :
    (readTimestamp (formatTimestamp ns) = some ((ns : ℚ) / 10 ^ 9) ↔
      ns % 10 ^ 9 = 0 ∨ 10 ^ 8 ≤ ns % 10 ^ 9) ∧
    ∀ ns', ns < ns' → (Earlier (formatTimestamp ns) (formatTimestamp ns') ↔
      ns / 10 ^ 9 < ns' / 10 ^ 9 ∨
        ns % 10 ^ 9 * 10 ^ fractionDigits ns' < ns' % 10 ^ 9 * 10 ^ fractionDigits ns) :=
  ⟨readTimestamp_eq_iff h, fun _ ↦ earlier_formatTimestamp_iff h⟩

/-- The last nanosecond of a second is read as such, and before the next second. -/
theorem formatTimestamp_faithful_iff_last :
    readTimestamp (formatTimestamp 1700000000999999999)
      = some (((1700000000999999999 : ℤ) : ℚ) / 10 ^ 9) ∧
    Earlier (formatTimestamp 1700000000999999999) (formatTimestamp 1700000001000000000) := by
  have hpos : (0 : ℤ) ≤ 1700000000999999999 := by decide
  obtain ⟨hfaithful, horder⟩ := formatTimestamp_faithful_iff hpos
  exact ⟨hfaithful.mpr (Or.inr (by decide)),
    (horder 1700000001000000000 (by decide)).mpr (Or.inl (by decide))⟩

/-- Five nanoseconds are written as half a second, which is later than a tenth. -/
theorem formatTimestamp_five : formatTimestamp 5 = "1970-01-01 00:00:00.5+00" ∧
    readTimestamp (formatTimestamp 5) ≠ some (((5 : ℤ) : ℚ) / 10 ^ 9) ∧
    ¬Earlier (formatTimestamp 5) (formatTimestamp 100000000) := by
  refine ⟨by decide, ?_, ?_⟩
  · rw [ne_eq, readTimestamp_eq_iff (by decide)]
    decide
  · rw [earlier_formatTimestamp_iff (by decide) (by decide)]
    decide

end BenchmarkPlatform.Scoring
