import Khala.Js.Date
import Mathlib.Tactic.IntervalCases

/-! From calendar dates back to time values: the day of a date, and the time value of a date and a
time of day. -/

namespace Js

/-- The day of the first of a month, counted from 1970-01-01; the months are 1 to 12. -/
def firstOfMonth (year : Int) (month : Nat) : Int :=
  -- Years start in March here too.
  let shiftedYear := if month ≤ 2 then year - 1 else year
  let shiftedMonth := if month ≤ 2 then month + 9 else month - 3
  let yearOfEra := shiftedYear % 400
  shiftedYear / 400 * 146097 + (365 * yearOfEra + yearOfEra / 4 - yearOfEra / 100)
    + ((153 * shiftedMonth + 2) / 5 : Nat) - 719468

/-- `MakeDay`, with the month counted from zero. Months and days beyond the end carry over. -/
def makeDay (year month day : Int) : Int :=
  firstOfMonth (year + month / 12) ((month % 12).toNat + 1) + day - 1

/-- `MakeDate` of a day and a time of day, in milliseconds. -/
def makeDate (day hour minute second millis : Int) : Int :=
  day * 86400000 + hour * 3600000 + minute * 60000 + second * 1000 + millis

example : makeDate (makeDay 2025 9 2) 10 4 0 0 = 1759399440000 := by decide

/-- The days of an era fall into 400 years of at most 366 days. -/
private theorem year_of_era {day year : Nat} (inside : day < 146097)
    (years : year = (day - day / 1460 + day / 36524 - day / 146096) / 365) :
    year < 400 ∧ 365 * year + year / 4 - year / 100 ≤ day
      ∧ day - (365 * year + year / 4 - year / 100) < 366 := by
  rcases Nat.lt_or_ge day 146096 with early | last
  · have whole : day / 146096 = 0 := by omega
    rw [whole] at years
    -- In every century of the era but the last day the number of the century is that of the year.
    have centuries : day / 36524 ≤ 3 ∨ day / 36524 = 4 := by omega
    generalize century : day / 36524 = k at *
    have bound : k ≤ 4 := by omega
    have hundreds : year / 100 = k := by
      interval_cases k <;> omega
    interval_cases k <;> refine ⟨by omega, by omega, by omega⟩
  · have only : day = 146096 := by omega
    subst only
    subst years
    decide

/-- The months of a year that starts in March, by the day of the year. -/
private theorem month_of_year {day month : Nat} (inside : day < 366)
    (months : month = (5 * day + 2) / 153) :
    month < 12 ∧ (153 * month + 2) / 5 ≤ day ∧ day - (153 * month + 2) / 5 < 31 := by
  omega

/-- What the date of a day is, in terms of its era, its year of the era and its day of the year. -/
private theorem civilFromDays_eq (days : Int) : ∃ yearOfEra dayOfYear shiftedMonth : Nat,
    yearOfEra < 400 ∧ dayOfYear < 366 ∧ shiftedMonth < 12 ∧ (153 * shiftedMonth + 2) / 5 ≤ dayOfYear
    ∧ dayOfYear - (153 * shiftedMonth + 2) / 5 < 31
    ∧ days + 719468 = (days + 719468) / 146097 * 146097 +
      (365 * yearOfEra + yearOfEra / 4 - yearOfEra / 100 + dayOfYear : Nat)
    ∧ civilFromDays days
      = ((days + 719468) / 146097 * 400 + yearOfEra + (if shiftedMonth < 10 then 0 else 1),
      if shiftedMonth < 10 then shiftedMonth + 3 else shiftedMonth - 9,
        dayOfYear - (153 * shiftedMonth + 2) / 5 + 1) := by
  -- The parts of the date are named as the code computes them.
  obtain ⟨dayOfEra, isDay⟩ : ∃ dayOfEra, dayOfEra = ((days + 719468) % 146097).toNat := ⟨_, rfl⟩
  obtain ⟨yearOfEra, isYear⟩ :
    ∃ year, year = (dayOfEra - dayOfEra / 1460 + dayOfEra / 36524 - dayOfEra / 146096) / 365 :=
    ⟨_, rfl⟩
  obtain ⟨dayOfYear, isDayOfYear⟩ :
    ∃ day, day = dayOfEra - (365 * yearOfEra + yearOfEra / 4 - yearOfEra / 100) := ⟨_, rfl⟩
  obtain ⟨shiftedMonth, isMonth⟩ : ∃ month, month = (5 * dayOfYear + 2) / 153 := ⟨_, rfl⟩
  have inside : dayOfEra < 146097 := by omega
  obtain ⟨year, before, rest⟩ := year_of_era inside isYear
  rw [← isDayOfYear] at rest
  obtain ⟨month, first, day⟩ := month_of_year rest isMonth
  -- The bounds are those of the two lemmas, and the rest is the definition itself.
  refine ⟨yearOfEra, dayOfYear, shiftedMonth, year, rest, month, first, day, by omega, ?_⟩
  simp only [civilFromDays, ← isDay, ← isYear, ← isDayOfYear, ← isMonth]
  -- The shifted year begins in March, so its last two months belong to the next year.
  by_cases early : shiftedMonth < 10
  · have late : ¬ shiftedMonth + 3 ≤ 2 := by omega
    simp only [if_pos early, if_neg late]
  · have late : shiftedMonth - 9 ≤ 2 := by omega
    simp only [if_neg early, if_pos late]

/-- The day of the date of a day is that day, and the month and the day of the month are ordinary
ones. -/
theorem makeDay_civilFromDays (days : Int) {year : Int} {month day : Nat}
    (date : civilFromDays days = (year, month, day)) :
    1 ≤ month ∧ month ≤ 12 ∧ 1 ≤ day ∧ day ≤ 31 ∧ makeDay year ((month : Int) - 1) day = days := by
  -- The day is given by its era, its year in it and its day in that.
  obtain ⟨yearOfEra, dayOfYear, shiftedMonth, years, -, months, first, inMonth, sum, is⟩ :=
    civilFromDays_eq days
  rw [is] at date
  obtain ⟨rfl, rfl, rfl⟩ : _ = year ∧ _ = month ∧ _ = day := by simpa using date
  generalize era : (days + 719468) / 146097 = e at *
  have leap : yearOfEra / 100 ≤ 365 * yearOfEra + yearOfEra / 4 := by omega
  -- The months from March on stay in their year.
  by_cases early : shiftedMonth < 10
  · have number :
      ((((shiftedMonth + 3 : Nat) : Int) - 1) % 12).toNat + 1 = shiftedMonth + 3 := by omega
    have carried : (((shiftedMonth + 3 : Nat) : Int) - 1) / 12 = 0 := by omega
    have shifted : (e * 400 + (yearOfEra : Int)) / 400 = e := by omega
    have left : (e * 400 + (yearOfEra : Int)) % 400 = yearOfEra := by omega
    simp only [if_pos early, makeDay, firstOfMonth, number, carried, add_zero,
      if_neg (show ¬ shiftedMonth + 3 ≤ 2 by omega),
      shifted, left]
    omega
  -- January and February were counted with the year before.
  · have number :
      ((((shiftedMonth - 9 : Nat) : Int) - 1) % 12).toNat + 1 = shiftedMonth - 9 := by omega
    have carried : (((shiftedMonth - 9 : Nat) : Int) - 1) / 12 = 0 := by omega
    have shifted : (e * 400 + (yearOfEra : Int) + 1 - 1) / 400 = e := by omega
    have left : (e * 400 + (yearOfEra : Int) + 1 - 1) % 400 = yearOfEra := by omega
    simp only [if_neg early, makeDay, firstOfMonth, number, carried, add_zero,
      if_pos (show shiftedMonth - 9 ≤ 2 by omega),
      shifted, left]
    omega

/-- The fields of a time value are those of a date and of a time of day, and make up the value
again. -/
theorem makeDate_utcTime (ms : Int) :
    1 ≤ (utcTime ms).month ∧ (utcTime ms).month ≤ 12 ∧ 1 ≤ (utcTime ms).day ∧ (utcTime ms).day ≤ 31
    ∧ (utcTime ms).hour < 24 ∧ (utcTime ms).minute < 60 ∧ (utcTime ms).second < 60
    ∧ (utcTime ms).millis < 1000
    ∧ makeDate (makeDay (utcTime ms).year ((utcTime ms).month - 1) (utcTime ms).day)
      (utcTime ms).hour (utcTime ms).minute
      (utcTime ms).second (utcTime ms).millis = ms := by
  obtain ⟨year, month, day, date⟩ :
    ∃ year month day, civilFromDays (ms / 86400000) = (year, month, day) := ⟨_, _, _, rfl⟩
  obtain ⟨first, last, first', last', back⟩ := makeDay_civilFromDays (ms / 86400000) date
  simp only [utcTime, date, makeDate, back]
  omega

/-- The fields of the time value that a day and an ordinary time of day make up. -/
theorem utcTime_makeDate (day : Int) {hour minute second millis : Nat} (hours : hour < 24)
    (minutes : minute < 60) (seconds : second < 60) (fraction : millis < 1000) :
    utcTime (makeDate day hour minute second millis)
      = ⟨(civilFromDays day).1, (civilFromDays day).2.1, (civilFromDays day).2.2, hour, minute,
        second, millis⟩ := by
  have days : makeDate day hour minute second millis / 86400000 = day := by
    simp only [makeDate]
    omega
  have inDay : (makeDate day hour minute second millis % 86400000).toNat
      = hour * 3600000 + minute * 60000 + second * 1000 + millis := by
    simp only [makeDate]
    omega
  simp only [utcTime, days, inDay, UtcTime.mk.injEq, true_and]
  omega

end Js
