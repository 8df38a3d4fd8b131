import Khala.Js.Digits

/-! Dates in UTC: the calendar date of a time value and the text `toISOString` gives it. -/

namespace Js

/-- A date and a time of day in UTC. -/
structure UtcTime where
  year : Int
  month : Nat
  day : Nat
  hour : Nat
  minute : Nat
  second : Nat
  millis : Nat
deriving DecidableEq, Repr

/-- The proleptic Gregorian year, month and day of a day counted from 1970-01-01. -/
def civilFromDays (days : Int) : Int × Nat × Nat :=
  -- Years start in March here, so that a leap day is the last day of its year.
  let shifted := days + 719468
  let era := shifted / 146097
  let dayOfEra := (shifted % 146097).toNat
  let yearOfEra := (dayOfEra - dayOfEra / 1460 + dayOfEra / 36524 - dayOfEra / 146096) / 365
  let dayOfYear := dayOfEra - (365 * yearOfEra + yearOfEra / 4 - yearOfEra / 100)
  let shiftedMonth := (5 * dayOfYear + 2) / 153
  let day := dayOfYear - (153 * shiftedMonth + 2) / 5 + 1
  let month := if shiftedMonth < 10 then shiftedMonth + 3 else shiftedMonth - 9
  let year := era * 400 + yearOfEra + (if month ≤ 2 then 1 else 0)
  (year, month, day)

/-- The UTC fields of a time value in milliseconds since the epoch. -/
def utcTime (ms : Int) : UtcTime :=
  let (year, month, day) := civilFromDays (ms / 86400000)
  let inDay := (ms % 86400000).toNat
  { year, month, day, hour := inDay / 3600000, minute := inDay / 60000 % 60,
    second := inDay / 1000 % 60, millis := inDay % 1000 }

/-- Four digits for the years 0 to 9999, otherwise a sign and at least six digits. -/
def yearText (year : Int) : Text :=
  if 0 ≤ year ∧ year ≤ 9999 then padStart 4 (decimal year.toNat)
  else (if year < 0 then lit "-" else lit "+") ++ padStart 6 (decimal year.natAbs)

/-- `new Date(ms).toISOString()` of a valid time value. -/
def toISOString (ms : Int) : Text :=
  let t := utcTime ms
  yearText t.year ++ lit "-" ++ padStart 2 (decimal t.month) ++ lit "-" ++ padStart 2
    (decimal t.day)
    ++ lit "T" ++ padStart 2 (decimal t.hour) ++ lit ":" ++ padStart 2 (decimal t.minute)
    ++ lit ":" ++ padStart 2 (decimal t.second) ++ lit "." ++ padStart 3
      (decimal t.millis) ++ lit "Z"

example : toISOString 1759399440000 = lit "2025-10-02T10:04:00.000Z" := by decide

/-- The code units an ISO date can contain. -/
def isIsoUnit (u : CodeUnit) : Bool :=
  isDigit u || (lit "+-:.TZ").contains u

/-- A padded number has units of a date. -/
private theorem isIsoUnit_number (width n : Nat) :
    ∀ u ∈ padStart width (decimal n), isIsoUnit u = true := by
  intro u member
  simp [isIsoUnit, isDigit_padStart (fun _ inside => isDigit_decimal inside) u member]

/-- A year has units of a date. -/
private theorem isIsoUnit_year (year : Int) : ∀ u ∈ yearText year, isIsoUnit u = true := by
  have minus : ∀ v ∈ lit "-", isIsoUnit v = true := forall_of_all (by decide)
  have plus : ∀ v ∈ lit "+", isIsoUnit v = true := forall_of_all (by decide)
  unfold yearText
  split
  · exact isIsoUnit_number _ _
  · rw [List.forall_mem_append]
    refine ⟨?_, isIsoUnit_number _ _⟩
    split
    · exact minus
    · exact plus

/-- An ISO date is made of digits and its fixed punctuation. -/
theorem isIsoUnit_toISOString (ms : Int) : ∀ u ∈ toISOString ms, isIsoUnit u = true := by
  -- Every piece is either a padded number or one of the literal separators.
  have dash : ∀ v ∈ lit "-", isIsoUnit v = true := forall_of_all (by decide)
  have colon : ∀ v ∈ lit ":", isIsoUnit v = true := forall_of_all (by decide)
  have dot : ∀ v ∈ lit ".", isIsoUnit v = true := forall_of_all (by decide)
  have tee : ∀ v ∈ lit "T", isIsoUnit v = true := forall_of_all (by decide)
  have zed : ∀ v ∈ lit "Z", isIsoUnit v = true := forall_of_all (by decide)
  simp only [toISOString, List.forall_mem_append]
  exact ⟨⟨⟨⟨⟨⟨⟨⟨⟨⟨⟨⟨⟨isIsoUnit_year _, dash⟩, isIsoUnit_number _ _⟩, dash⟩, isIsoUnit_number _ _⟩,
    tee⟩, isIsoUnit_number _ _⟩, colon⟩, isIsoUnit_number _ _⟩, colon⟩, isIsoUnit_number _ _⟩,
    dot⟩, isIsoUnit_number _ _⟩, zed⟩

end Js
