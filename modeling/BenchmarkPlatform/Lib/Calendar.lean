import Mathlib.Algebra.Ring.Nat
import Mathlib.Data.Int.Order.Basic

/-!
# The calendar

Dates of the proleptic Gregorian calendar and times of day, and the number of seconds since the
epoch, which is the beginning of 1970. A date counts the days before it; `dateOf` finds the date of
a number of days, first the year and then, by `locate`, the month. `toSeconds_momentOf` says that
nothing is lost between seconds and the moment they denote.
-/

namespace BenchmarkPlatform.Lib

/-! ## Places in a row of lengths -/

/-- Which of these lengths a place falls into, and how far. -/
def locate : List ℕ → ℕ → ℕ × ℕ
  | [], r => (0, r)
  | l :: ls, r => if r < l then (0, r) else ((locate ls (r - l)).1 + 1, (locate ls (r - l)).2)

theorem locate_spec {ls : List ℕ} {r : ℕ} (h : r < ls.sum) :
    (ls.take (locate ls r).1).sum + (locate ls r).2 = r ∧ (locate ls r).1 < ls.length ∧
      ∃ l, ls[(locate ls r).1]? = some l ∧ (locate ls r).2 < l := by
  induction ls generalizing r with
  | nil => simp at h
  | cons l ls ih =>
    rw [List.sum_cons] at h
    rw [locate]
    split_ifs with hlt
    · simpa using hlt
    · obtain ⟨hsum, hindex, hlength⟩ := ih (by omega : r - l < ls.sum)
      refine ⟨?_, Nat.succ_lt_succ hindex, hlength⟩
      rw [List.take_succ_cons, List.sum_cons]
      omega

/-! ## Dates -/

def IsLeapYear (year : ℤ) : Prop := year % 4 = 0 ∧ (year % 100 ≠ 0 ∨ year % 400 = 0)

instance : DecidablePred IsLeapYear := fun year ↦
  inferInstanceAs (Decidable (year % 4 = 0 ∧ (year % 100 ≠ 0 ∨ year % 400 = 0)))

/-- The lengths of the months. -/
def monthLengths (year : ℤ) : List ℕ :=
  [31, if IsLeapYear year then 29 else 28, 31, 30, 31, 30, 31, 31, 30, 31, 30, 31]

def yearLength (year : ℤ) : ℕ := if IsLeapYear year then 366 else 365

theorem sum_monthLengths (year : ℤ) : (monthLengths year).sum = yearLength year := by
  rw [monthLengths, yearLength]
  split_ifs <;> rfl

/-- The days between the beginning of the year 1 and that of another. -/
def daysBeforeYear (year : ℤ) : ℤ :=
  365 * (year - 1) + (year - 1) / 4 - (year - 1) / 100 + (year - 1) / 400

theorem daysBeforeYear_succ (year : ℤ) :
    daysBeforeYear (year + 1) = daysBeforeYear year + yearLength year := by
  rw [daysBeforeYear, daysBeforeYear, yearLength]
  by_cases hleap : IsLeapYear year
  · rw [if_pos hleap]
    rw [IsLeapYear] at hleap
    omega
  · rw [if_neg hleap]
    rw [IsLeapYear] at hleap
    omega

theorem daysBeforeYear_mono {year year' : ℤ} (h : year ≤ year') :
    daysBeforeYear year ≤ daysBeforeYear year' := by
  rw [daysBeforeYear, daysBeforeYear]
  omega

/-- A date; months and days count from one. -/
structure Date where
  year : ℤ
  month : ℕ
  day : ℕ

/-- The date exists. -/
def Date.Valid (d : Date) : Prop :=
  0 < d.month ∧ 0 < d.day ∧ ∃ l ∈ (monthLengths d.year)[d.month - 1]?, d.day ≤ l

instance : DecidablePred Date.Valid := fun d ↦ inferInstanceAs
  (Decidable (0 < d.month ∧ 0 < d.day ∧ ∃ l ∈ (monthLengths d.year)[d.month - 1]?, d.day ≤ l))

theorem Date.Valid.le {d : Date} (h : d.Valid) : d.month ≤ 12 ∧ d.day ≤ 31 := by
  obtain ⟨hmonth, -, l, hl, hday⟩ := h
  have hindex : d.month - 1 < 12 := (List.getElem?_eq_some_iff.mp hl).1
  have hlength : l ≤ 31 := by
    have hmem := List.mem_of_getElem? hl
    simp only [monthLengths, List.mem_cons, List.not_mem_nil, or_false] at hmem
    split_ifs at hmem <;> omega
  exact ⟨by omega, by omega⟩

/-- The days between the epoch and a date. -/
def Date.toDays (d : Date) : ℤ :=
  daysBeforeYear d.year - daysBeforeYear 1970
    + ((monthLengths d.year).take (d.month - 1)).sum + (d.day - 1)

/-- The year of a number of days since the beginning of the year 1: by the mean length of a year,
and corrected. -/
def yearOf (days : ℤ) : ℤ :=
  let year := days * 400 / 146097 + 1
  if days < daysBeforeYear year then year - 1
  else if daysBeforeYear (year + 1) ≤ days then year + 1
  else year

theorem yearOf_spec (days : ℤ) :
    daysBeforeYear (yearOf days) ≤ days ∧ days < daysBeforeYear (yearOf days + 1) := by
  rw [yearOf]
  generalize hyear : days * 400 / 146097 + 1 = year
  have hmean : 146097 * (year - 1) ≤ days * 400 ∧ days * 400 < 146097 * year := by omega
  split_ifs with hearly hlate
  · refine ⟨?_, by rwa [Int.sub_add_cancel]⟩
    rw [daysBeforeYear]
    omega
  · refine ⟨hlate, ?_⟩
    rw [daysBeforeYear]
    omega
  · exact ⟨not_lt.mp hearly, not_le.mp hlate⟩

/-- The date of a number of days since the epoch. -/
def dateOf (days : ℤ) : Date :=
  let since := days + daysBeforeYear 1970
  let year := yearOf since
  let place := locate (monthLengths year) (since - daysBeforeYear year).toNat
  ⟨year, place.1 + 1, place.2 + 1⟩

/-- **Every number of days is that of its date**, which exists. -/
theorem dateOf_spec (days : ℤ) : (dateOf days).Valid ∧ (dateOf days).toDays = days := by
  obtain ⟨hlow, hhigh⟩ := yearOf_spec (days + daysBeforeYear 1970)
  rw [dateOf]
  generalize yearOf (days + daysBeforeYear 1970) = year at hlow hhigh ⊢
  rw [daysBeforeYear_succ] at hhigh
  have hplace : (days + daysBeforeYear 1970 - daysBeforeYear year).toNat
      < (monthLengths year).sum := by
    rw [sum_monthLengths]
    omega
  obtain ⟨hsum, -, l, hl, hday⟩ := locate_spec hplace
  refine ⟨⟨Nat.succ_pos _, Nat.succ_pos _, l, hl, hday⟩, ?_⟩
  rw [Date.toDays]
  dsimp only
  rw [Nat.add_sub_cancel]
  omega

/-- From the epoch on, years are not before 1970. -/
theorem year_dateOf {days : ℤ} (h : 0 ≤ days) : 1970 ≤ (dateOf days).year := by
  obtain ⟨-, hhigh⟩ := yearOf_spec (days + daysBeforeYear 1970)
  rw [dateOf]
  dsimp only
  by_contra hbefore
  have hmono := daysBeforeYear_mono (by omega : yearOf (days + daysBeforeYear 1970) + 1 ≤ 1970)
  omega

/-! ## Moments -/

/-- A date and a time of day. -/
structure Moment where
  date : Date
  hour : ℕ
  minute : ℕ
  second : ℕ

def Moment.Valid (m : Moment) : Prop :=
  m.date.Valid ∧ m.hour < 24 ∧ m.minute < 60 ∧ m.second < 60

instance : DecidablePred Moment.Valid := fun m ↦
  inferInstanceAs (Decidable (m.date.Valid ∧ m.hour < 24 ∧ m.minute < 60 ∧ m.second < 60))

/-- The seconds between the epoch and a moment. -/
def Moment.toSeconds (m : Moment) : ℤ :=
  m.date.toDays * 86400 + m.hour * 3600 + m.minute * 60 + m.second

/-- The moment of a number of seconds since the epoch. -/
def momentOf (seconds : ℤ) : Moment where
  date := dateOf (seconds / 86400)
  hour := (seconds % 86400 / 3600).toNat
  minute := (seconds % 3600 / 60).toNat
  second := (seconds % 60).toNat

theorem momentOf_valid (seconds : ℤ) : (momentOf seconds).Valid := by
  refine ⟨(dateOf_spec _).1, ?_⟩
  rw [momentOf]
  dsimp only
  omega

/-- **Every number of seconds is that of its moment.** -/
theorem toSeconds_momentOf (seconds : ℤ) : (momentOf seconds).toSeconds = seconds := by
  rw [Moment.toSeconds, momentOf]
  dsimp only
  rw [(dateOf_spec _).2]
  omega

end BenchmarkPlatform.Lib
