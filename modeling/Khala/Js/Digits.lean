import Khala.Js.Text

/-! Decimal digits as the runtime prints natural numbers, and reading them back. -/

namespace Js

/-- The code unit of an ASCII character. -/
def charUnit (c : Char) : CodeUnit := c.toNat.toUInt16

/-- `String(n)` of a natural number. -/
def decimal (n : Nat) : Text :=
  (Nat.toDigits 10 n).map charUnit

/-- The digits `0` to `9`. -/
def isDigit (u : CodeUnit) : Bool := 48 ≤ u && u ≤ 57

/-- The value of one digit. -/
def digitValue (u : CodeUnit) : Nat := u.toNat - 48

/-- Reads a run of digits after the value read so far. -/
def readDigits (start : Nat) (digits : Text) : Nat :=
  digits.foldl (fun value u => 10 * value + digitValue u) start

/-- Fills a number's text with leading zeros up to a width. -/
def padStart (width : Nat) (s : Text) : Text :=
  List.replicate (width - s.length) 48 ++ s

/-- The unit of a digit is one. -/
private theorem isDigit_charUnit {c : Char} (digit : c.isDigit = true) :
    isDigit (charUnit c) = true := by
  -- The ten digits sit at code points 48 to 57.
  have bounds :
    48 ≤ c.toNat ∧ c.toNat ≤ 57 := by simpa [Char.isDigit, UInt32.le_iff_toNat_le] using digit
  have value : (charUnit c).toNat = c.toNat := Nat.mod_eq_of_lt (by omega)
  simp [isDigit, UInt16.le_iff_toNat_le, value, bounds]

/-- A digit's unit has its value. -/
private theorem digitValue_charUnit {c : Char} (digit : c.isDigit = true) :
    digitValue (charUnit c) = c.toNat - '0'.toNat := by
  have bounds :
    48 ≤ c.toNat ∧ c.toNat ≤ 57 := by simpa [Char.isDigit, UInt32.le_iff_toNat_le] using digit
  have value : (charUnit c).toNat = c.toNat := Nat.mod_eq_of_lt (by omega)
  simp [digitValue, value]

/-- A printed number consists of digits. -/
theorem isDigit_decimal {n : Nat} {u : CodeUnit} (member : u ∈ decimal n) : isDigit u = true := by
  obtain ⟨c, inside, rfl⟩ := List.mem_map.mp member
  exact isDigit_charUnit (Nat.isDigit_of_mem_toDigits (by decide) (by decide) inside)

/-- A number has a digit. -/
theorem decimal_ne_nil (n : Nat) : decimal n ≠ [] := by
  simp [decimal, Nat.toDigits_ne_nil]

/-- Reading a printed number gives it back. -/
theorem readDigits_decimal (n : Nat) : readDigits 0 (decimal n) = n := by
  -- The runtime's own digit reader computes the same fold on the characters.
  have general : ∀ (chars : List Char) (start : Nat), (∀ c ∈ chars, c.isDigit = true) →
      readDigits start (chars.map charUnit) = Nat.ofDigitChars 10 chars start := by
    intro chars
    induction chars with
    | nil => intros; rfl
    | cons c rest ih =>
      intro start digits
      have head := digitValue_charUnit (digits c (by simp))
      have tail := ih (10 * start + (c.toNat - '0'.toNat)) fun d member =>
        digits d (by simp [member])
      simpa [readDigits, Nat.ofDigitChars, head] using tail
  rw [decimal, general _ _ fun c member => Nat.isDigit_of_mem_toDigits (by decide)
    (by decide) member]
  exact Nat.ofDigitChars_ten_toDigits

/-- A printed number other than zero does not begin with a zero. -/
theorem head_decimal {n : Nat} (some_ : 0 < n) : (decimal n).head? ≠ some 48 := by
  induction n using Nat.strong_induction_on with
  | _ n ih =>
    -- A single digit is not zero when the number is not.
    rcases Nat.lt_or_ge n 10 with small | large
    · have digits : ∀ m < 10, 0 < m → ([m.digitChar].map charUnit).head? ≠ some 48 := by decide
      rw [decimal, Nat.toDigits_of_lt_base small]
      exact digits n small some_
    · -- The first digit is that of the number without its last one.
      have front := ih (n / 10) (by omega) (by omega)
      rw [decimal] at front
      rw [decimal, Nat.toDigits_of_base_le (by decide) large, List.map_append,
        List.head?_append_of_ne_nil]
      · exact front
      · simp [Nat.toDigits_ne_nil]

/-- Padding adds only zeros. -/
theorem isDigit_padStart {width : Nat} {s : Text} (digits : ∀ u ∈ s, isDigit u = true) :
    ∀ u ∈ padStart width s, isDigit u = true := by
  intro u member
  rcases List.mem_append.mp member with zero | inside
  · rw [(List.mem_replicate.mp zero).2]; rfl
  · exact digits u inside

end Js
