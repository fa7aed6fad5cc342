/-
The Gregorian calendar of `Date` in UTC: days since 1970-01-01, years, months
and days of the month. Months are numbered through all years (12 a year), so
that stepping by months is addition.

`monthOf_day`, `dateOf_day`: a day of a month is read back. `dayFromMonth_succ`:
a month is as long as its number of days.
-/
import Mathlib.Data.Int.Basic
import Mathlib.Tactic.IntervalCases

namespace Zenod.Calendar

/-- The day on which a year starts. -/
def dayFromYear (year : Int) : Int :=
  365 * (year - 1970) + (year - 1969) / 4 - (year - 1901) / 100 + (year - 1601) / 400

def leap (year : Int) : Bool := year % 4 = 0 ∧ (year % 100 ≠ 0 ∨ year % 400 = 0)

/-- The last year that has started by a day. -/
def yearFromDay (day : Int) : Int :=
  let year := 1970 + 400 * day / 146097
  if dayFromYear (year + 1) ≤ day then year + 1 else if day < dayFromYear year then year - 1 else year

/-- The days of a year before its month `month` (0 to 11). -/
def daysBefore (isLeap : Bool) (month : Int) : Int :=
  275 * (month + 1) / 9 - 30 - if 2 ≤ month then (if isLeap then 1 else 2) else 0

/-- The month of a day of the year: how many months have started after January. -/
def monthFromDay (isLeap : Bool) (day : Int) : Int :=
  (List.range 11).countP fun (month : Nat) => daysBefore isLeap (month + 1) ≤ day

/-- The days of month `month` of all years. -/
def monthLength (month : Int) : Int :=
  if month % 12 = 1 then (if leap (month / 12) then 29 else 28)
  else if month % 12 = 3 ∨ month % 12 = 5 ∨ month % 12 = 8 ∨ month % 12 = 10 then 30
  else 31

/-- The day on which a month starts. -/
def dayFromMonth (month : Int) : Int := dayFromYear (month / 12) + daysBefore (leap (month / 12)) (month % 12)

/-- `12 * getUTCFullYear() + getUTCMonth()`. -/
def monthOf (day : Int) : Int :=
  12 * yearFromDay day + monthFromDay (leap (yearFromDay day)) (day - dayFromYear (yearFromDay day))

/-- `getUTCDate()`. -/
def dateOf (day : Int) : Int := day - dayFromMonth (monthOf day) + 1

/-! ## Years -/

theorem dayFromYear_succ (year : Int) : dayFromYear (year + 1) = dayFromYear year + if leap year then 366 else 365 := by
  unfold dayFromYear leap
  split
  · rename_i h
    simp only [decide_eq_true_eq] at h
    omega
  · rename_i h
    simp only [decide_eq_true_eq] at h
    omega

theorem dayFromYear_lt {year later : Int} (h : year < later) : dayFromYear year < dayFromYear later := by
  unfold dayFromYear
  omega

theorem yearFromDay_spec (day : Int) :
    dayFromYear (yearFromDay day) ≤ day ∧ day < dayFromYear (yearFromDay day + 1) := by
  unfold yearFromDay
  simp only []
  split
  · rename_i h
    refine ⟨h, ?_⟩
    unfold dayFromYear
    omega
  · rename_i h
    split
    · rename_i h'
      rw [Int.sub_add_cancel]
      refine ⟨?_, h'⟩
      unfold dayFromYear
      omega
    · omega

theorem yearFromDay_eq {day year : Int} (hstart : dayFromYear year ≤ day) (hstop : day < dayFromYear (year + 1)) :
    yearFromDay day = year := by
  obtain ⟨hlow, hhigh⟩ := yearFromDay_spec day
  rcases lt_trichotomy (yearFromDay day) year with h | h | h
  · have : dayFromYear (yearFromDay day + 1) ≤ dayFromYear year := by
      rcases eq_or_lt_of_le (Int.add_one_le_iff.mpr h) with heq | hlt
      · rw [heq]
      · exact (dayFromYear_lt hlt).le
    omega
  · exact h
  · have : dayFromYear (year + 1) ≤ dayFromYear (yearFromDay day) := by
      rcases eq_or_lt_of_le (Int.add_one_le_iff.mpr h) with heq | hlt
      · rw [heq]
      · exact (dayFromYear_lt hlt).le
    omega

/-! ## Months -/

theorem monthLength_bounds (month : Int) : 28 ≤ monthLength month ∧ monthLength month ≤ 31 := by
  unfold monthLength
  split
  · split <;> omega
  · split <;> omega

/-- A month ends where the next one of its year starts. -/
theorem daysBefore_succ (month : Int) : daysBefore (leap (month / 12)) (month % 12) + monthLength month =
    if month % 12 = 11 then (if leap (month / 12) then 366 else 365)
    else daysBefore (leap (month / 12)) (month % 12 + 1) := by
  have hlow := Int.emod_nonneg month (show (12 : Int) ≠ 0 by decide)
  have hhigh := Int.emod_lt_of_pos month (show (0 : Int) < 12 by decide)
  unfold monthLength
  generalize month % 12 = m at *
  cases leap (month / 12) <;> interval_cases m <;> rfl

theorem dayFromMonth_succ (month : Int) : dayFromMonth (month + 1) = dayFromMonth month + monthLength month := by
  have hstep := daysBefore_succ month
  unfold dayFromMonth
  by_cases hlast : month % 12 = 11
  · have hyear : (month + 1) / 12 = month / 12 + 1 := by omega
    have hmonth : (month + 1) % 12 = 0 := by omega
    have hzero : ∀ b, daysBefore b 0 = 0 := by decide
    rw [if_pos hlast] at hstep
    rw [hyear, hmonth, hzero, dayFromYear_succ]
    omega
  · have hyear : (month + 1) / 12 = month / 12 := by omega
    have hmonth : (month + 1) % 12 = month % 12 + 1 := by omega
    rw [if_neg hlast] at hstep
    rw [hyear, hmonth, ← hstep]
    omega

theorem dayFromMonth_lt {month later : Int} (h : month < later) : dayFromMonth month + 28 ≤ dayFromMonth later := by
  have hstep : ∀ n : Nat, dayFromMonth month + 28 ≤ dayFromMonth (month + 1 + n) := by
    intro n
    induction n with
    | zero =>
      have := dayFromMonth_succ month
      have := (monthLength_bounds month).1
      simp only [Nat.cast_zero, Int.add_zero]
      omega
    | succ n ih =>
      have hnext := dayFromMonth_succ (month + 1 + n)
      have := (monthLength_bounds (month + 1 + n)).1
      rw [show month + 1 + ((n + 1 : Nat) : Int) = month + 1 + n + 1 by omega]
      omega
  have := hstep (later - month - 1).toNat
  rwa [show month + 1 + ((later - month - 1).toNat : Int) = later by omega] at this

/-! ## Days of months -/

theorem daysBefore_mono {b : Bool} {month later : Int} (h : month ≤ later) :
    daysBefore b month ≤ daysBefore b later := by
  rcases eq_or_lt_of_le h with rfl | h
  · exact le_refl _
  · unfold daysBefore
    cases b
    · simp only [Bool.false_eq_true, if_false]
      split <;> split <;> omega
    · simp only [if_true]
      split <;> split <;> omega

theorem monthFromDay_eq {b : Bool} {month day : Int} (hlow : 0 ≤ month) (hhigh : month < 12)
    (hstart : daysBefore b month ≤ day) (hstop : month < 11 → day < daysBefore b (month + 1)) :
    monthFromDay b day = month := by
  have hsame : ∀ m ∈ List.range 11, daysBefore b ((m : Int) + 1) ≤ day ↔ (m : Int) + 1 ≤ month := by
    intro m hm
    have hm := List.mem_range.mp hm
    constructor
    · intro hle
      by_contra hlt
      have := @daysBefore_mono b (month + 1) ((m : Int) + 1) (by omega)
      have := hstop (by omega)
      omega
    · intro hle
      exact (daysBefore_mono hle).trans hstart
  unfold monthFromDay
  have hcount : (List.range 11).countP (fun m : Nat => daysBefore b (m + 1) ≤ day) =
      (List.range 11).countP fun m : Nat => (m : Int) + 1 ≤ month :=
    List.countP_congr fun m hm => by simpa using hsame m hm
  rw [hcount]
  clear hcount hsame hstart hstop
  interval_cases month <;> rfl

/-- The days of a month are those of its year. -/
theorem yearFromDay_month {month date : Int} (hlow : 1 ≤ date) (hhigh : date ≤ monthLength month) :
    yearFromDay (dayFromMonth month + date - 1) = month / 12 := by
  have hnext := daysBefore_succ month
  have hfirst : 0 ≤ daysBefore (leap (month / 12)) (month % 12) := by
    have hzero : ∀ b, daysBefore b 0 = 0 := by decide
    rw [← hzero (leap (month / 12))]
    exact daysBefore_mono (Int.emod_nonneg month (by decide))
  have hlast : daysBefore (leap (month / 12)) (month % 12) + monthLength month ≤
      if leap (month / 12) then 366 else 365 := by
    rw [hnext]
    split
    · exact le_refl _
    · rename_i hmonth
      have hmono := @daysBefore_mono (leap (month / 12)) (month % 12 + 1) 11 (by omega)
      have htop : ∀ b, daysBefore b 11 ≤ if b then 366 else 365 := by decide
      exact hmono.trans (htop _)
  refine yearFromDay_eq ?_ ?_
  · unfold dayFromMonth
    omega
  · rw [dayFromYear_succ]
    unfold dayFromMonth
    omega

/-- **A day of a month is read back.** -/
theorem monthOf_day {month date : Int} (hlow : 1 ≤ date) (hhigh : date ≤ monthLength month) :
    monthOf (dayFromMonth month + date - 1) = month := by
  have hnext := daysBefore_succ month
  unfold monthOf
  rw [yearFromDay_month hlow hhigh, @monthFromDay_eq _ (month % 12) _ (Int.emod_nonneg month (by decide))
    (Int.emod_lt_of_pos month (by decide))]
  · omega
  · unfold dayFromMonth
    omega
  · intro hbefore
    rw [if_neg (by omega)] at hnext
    unfold dayFromMonth
    omega

theorem dateOf_day {month date : Int} (hlow : 1 ≤ date) (hhigh : date ≤ monthLength month) :
    dateOf (dayFromMonth month + date - 1) = date := by
  unfold dateOf
  rw [monthOf_day hlow hhigh]
  omega

/-! ## Dates -/

def msPerDay : Int := 86400000

/-- A time in milliseconds: the functions of `Date` in UTC. -/
def getUTCFullYear (time : Int) : Int := yearFromDay (time / msPerDay)

def getUTCMonth (time : Int) : Int :=
  monthFromDay (leap (getUTCFullYear time)) (time / msPerDay - dayFromYear (getUTCFullYear time))

/-- The month may be beyond its year, and the day of the month beyond the month: both run on. -/
def setUTCMonth (time month : Int) : Int :=
  (dayFromMonth (12 * getUTCFullYear time + month) + dateOf (time / msPerDay) - 1) * msPerDay + time % msPerDay

theorem monthOf_time (time : Int) : 12 * getUTCFullYear time + getUTCMonth time = monthOf (time / msPerDay) := rfl

end Zenod.Calendar
