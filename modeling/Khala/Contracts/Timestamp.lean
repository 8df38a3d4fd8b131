import Khala.Contracts.Decode
import Khala.Js.Calendar
import Mathlib.Data.Nat.Digits.Defs

/-! Timestamps in UTC: which texts are read as one, and which of the runtime's own dates are. -/

namespace Khala.Decode

open Js

/-- So many digits and the unit after them. -/
def readFixed (count : Nat) (stop : CodeUnit) (s : Text) : Option (Nat × Text) :=
  if (s.take count).length = count ∧ (s.take count).all isDigit = true ∧ s[count]? = some stop then
    some (readDigits 0 (s.take count), s.drop (count + 1))
  else none

/-- A fraction of one to nine digits, if there is one, and the `Z` at the end. -/
def isFractionAndZone : Text → Bool
  | 46 :: rest => 1 ≤ rest.dropLast.length && rest.dropLast.length ≤ 9 && rest.dropLast.all isDigit
    && rest.getLast? == some 90
  | rest => rest == [90]

/-- The last two digits and what follows them. -/
def readSecond (s : Text) : Option Nat :=
  if (s.take 2).length = 2 ∧ (s.take 2).all isDigit = true
    ∧ isFractionAndZone (s.drop 2) = true then
    some (readDigits 0 (s.take 2))
  else none

/-- The numbers that `UTC_TIMESTAMP` finds in a text. -/
def timestampFields (s : Text) : Option UtcTime := do
  let (year, s) ← readFixed 4 45 s
  let (month, s) ← readFixed 2 45 s
  let (day, s) ← readFixed 2 84 s
  let (hour, s) ← readFixed 2 58 s
  let (minute, s) ← readFixed 2 58 s
  let second ← readSecond s
  return ⟨year, month, day, hour, minute, second, 0⟩

/-- The date that the numbers make up; numbers that are too large carry over. -/
def UtcTime.dated (t : UtcTime) : UtcTime :=
  utcTime (makeDate (makeDay t.year ((t.month : Int) - 1) t.day) t.hour t.minute t.second 0)

/-- A timestamp with a `Z` suffix; dates that are not in the calendar fail. -/
def utcTimestamp (input : Json) (path : Text) : Decoded Text :=
  match input with
  | .string s =>
    match timestampFields s with
    | some t => if UtcTime.dated t = t then .ok s else fail path .invalid_value
    | none => fail path .invalid_value
  | _ => fail path .wrong_type

example : utcTimestamp (.string (lit "2024-02-29T23:59:60Z")) [] = fail [] .invalid_value := by
  decide +kernel

/-! ## The runtime's own dates -/

/-- A number that fits is padded to the width. -/
theorem length_padStart {width n : Nat} (some_ : 0 < width) (fits : n < 10 ^ width) :
    (padStart width (decimal n)).length = width := by
  have digits : (decimal n).length ≤ width := by
    rw [decimal, List.length_map]
    exact Nat.toDigits_length 10 n width some_ fits
  rw [padStart, List.length_append, List.length_replicate]
  omega

/-- Leading zeros are read as nothing. -/
theorem readDigits_padStart (width n : Nat) : readDigits 0 (padStart width (decimal n)) = n := by
  have zeros : ∀ count, readDigits 0 (List.replicate count 48) = 0 := by
    intro count
    induction count with
    | zero => rfl
    | succ count ih => exact ih
  have read := readDigits_decimal n
  simp only [readDigits, padStart, List.foldl_append] at zeros read ⊢
  rw [zeros, read]

/-- A padded number has only digits. -/
private theorem all_padStart (width n : Nat) : (padStart width (decimal n)).all isDigit = true :=
  List.all_eq_true.mpr (isDigit_padStart fun _ inside => isDigit_decimal inside)

/-- A padded number in front of its separator is read. -/
theorem readFixed_padStart {width n : Nat} (some_ : 0 < width) (fits : n < 10 ^ width)
    (stop : CodeUnit) (rest : Text) :
    readFixed width stop (padStart width (decimal n) ++ stop :: rest) = some (n, rest) := by
  have size := length_padStart some_ fits
  have head :
    (padStart width (decimal n) ++ stop :: rest).take width = padStart width (decimal n) :=
    List.take_left' size
  have next : (padStart width (decimal n) ++ stop :: rest)[width]? = some stop := by
    rw [List.getElem?_append_right (by omega), size]
    simp
  have tail : (padStart width (decimal n) ++ stop :: rest).drop (width + 1) = rest := by
    rw [← List.drop_drop, List.drop_left' size]
    rfl
  rw [readFixed, head, next, tail, if_pos ⟨size, all_padStart width n, rfl⟩, readDigits_padStart]

/-- Seconds that are written are read. -/
private theorem readSecond_padStart {second millis : Nat} (seconds : second < 60)
    (fraction : millis < 1000) :
    readSecond (padStart 2 (decimal second) ++ 46 :: (padStart 3 (decimal millis) ++ [90]))
      = some second := by
  have size := @length_padStart 2 second (by omega) (by omega)
  have size' := @length_padStart 3 millis (by omega) (by omega)
  have zone : isFractionAndZone (46 :: (padStart 3 (decimal millis) ++ [90])) = true := by
    simp [isFractionAndZone, size', all_padStart]
  rw [readSecond, List.take_left' size, List.drop_left' size,
    if_pos ⟨size, all_padStart 2 second, zone⟩, readDigits_padStart]

/-- A text that does not begin with a digit is no timestamp. -/
private theorem timestampFields_of_sign {u : CodeUnit} (sign : isDigit u = false) (rest : Text) :
    timestampFields (u :: rest) = none := by
  simp [timestampFields, readFixed, sign]

/-- `toISOString` writes a timestamp that is read again, unless the year needs a sign. -/
theorem utcTimestamp_toISOString {ms : Int} {path : Text} :
    utcTimestamp (.string (toISOString ms)) path = .ok (toISOString ms)
      ↔ 0 ≤ (utcTime ms).year ∧ (utcTime ms).year ≤ 9999 := by
  -- The date consists of the fields of its moment.
  obtain ⟨first, last, first', last', hours, minutes, seconds, fraction, back⟩ :=
    makeDate_utcTime ms
  generalize shown : utcTime ms = t at *
  by_cases year : 0 ≤ t.year ∧ t.year ≤ 9999
  · -- Every field is read as it was written, and makes up the same date.
    have text :
      toISOString ms = padStart 4 (decimal t.year.toNat) ++ 45 ::
      (padStart 2 (decimal t.month) ++ 45 ::
        (padStart 2 (decimal t.day) ++ 84 ::
          (padStart 2 (decimal t.hour) ++ 58 :: (padStart 2 (decimal t.minute) ++ 58 ::
        (padStart 2 (decimal t.second) ++ 46 :: (padStart 3 (decimal t.millis) ++ [90])))))) := by
      simp only [toISOString, shown, yearText, if_pos year, List.append_assoc]
      rfl
    -- The text is read field by field, each with its fixed width.
    have fields : timestampFields (toISOString ms) = some { t with millis := 0 } := by
      rw [text, timestampFields, readFixed_padStart (by omega) (by omega)]
      simp only [Option.bind_eq_bind, Option.bind_some]
      rw [readFixed_padStart (by omega) (by omega)]
      simp only [Option.bind_some]
      rw [readFixed_padStart (by omega) (by omega)]
      simp only [Option.bind_some]
      rw [readFixed_padStart (by omega) (by omega)]
      simp only [Option.bind_some]
      rw [readFixed_padStart (by omega) (by omega)]
      simp only [Option.bind_some]
      rw [readSecond_padStart seconds fraction]
      simp only [Option.bind_some, Int.toNat_of_nonneg year.1]
      rfl
    -- Without its milliseconds the date has the same day.
    have dated : UtcTime.dated { t with millis := 0 } = { t with millis := 0 } := by
      have days :=
        utcTime_makeDate (makeDay t.year ((t.month : Int) - 1) t.day) hours minutes seconds
        (by decide : 0 < 1000)
      have whole :=
        utcTime_makeDate (makeDay t.year ((t.month : Int) - 1) t.day) hours minutes seconds fraction
      rw [back, shown] at whole
      have year := congrArg UtcTime.year whole
      have month := congrArg UtcTime.month whole
      have day := congrArg UtcTime.day whole
      simp only at year month day
      rw [← year, ← month, ← day] at days
      exact days
    simp [utcTimestamp, fields, dated, year]
  -- Another year is written with a sign, which the reader refuses.
  · have sign : ∃ u rest, isDigit u = false ∧ toISOString ms = u :: rest := by
      simp only [toISOString, shown, yearText, if_neg year, List.append_assoc]
      split
      · exact ⟨45, _, by decide, rfl⟩
      · exact ⟨43, _, by decide, rfl⟩
    obtain ⟨u, rest, sign, text⟩ := sign
    simp [utcTimestamp, text, timestampFields_of_sign sign, fail, year]

end Khala.Decode
