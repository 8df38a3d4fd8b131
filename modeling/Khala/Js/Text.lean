import Mathlib.Data.FinEnum
import Mathlib.Data.UInt

/-! JavaScript strings as UTF-16 code units, and case-insensitive search for ASCII text in them. -/

namespace Js

/-- One UTF-16 code unit; a string may hold unpaired surrogates. -/
abbrev CodeUnit := UInt16

/-- A JavaScript string. -/
abbrev Text := List CodeUnit

instance : LawfulBEq Text := inferInstance

/-- The UTF-16 encoding of one Unicode scalar value. -/
def encodeChar (c : Char) : Text :=
  let point := c.toNat
  if point < 0x10000 then [point.toUInt16]
  else [(0xD800 + (point - 0x10000) / 0x400).toUInt16,
    (0xDC00 + (point - 0x10000) % 0x400).toUInt16]

/-- A string literal as the program sees it. -/
def lit (s : String) : Text :=
  s.toList.flatMap encodeChar

/-- A literal spelled out, so that no text has to be decoded when it is evaluated. -/
theorem lit_ofList (chars : List Char) : lit (String.ofList chars) = chars.flatMap encodeChar := by
  rw [lit, String.toList_ofList]

/-- A property of all units of a text is checked unit by unit, not over every code unit there is. -/
theorem forall_of_all {P : CodeUnit → Prop} [DecidablePred P] {s : Text}
    (checked : (s.all fun u => decide (P u)) = true) : ∀ u ∈ s, P u := by
  simpa using checked

/-- Carriage return and line feed. -/
abbrev cr : CodeUnit := 13
abbrev lf : CodeUnit := 10

/-- White space and line terminators, which `trim` removes. -/
def isWhite (u : CodeUnit) : Bool :=
  (9 ≤ u && u ≤ 13) || u == 32 || u == 0xA0 || u == 0x1680 || (0x2000 ≤ u && u ≤ 0x200A)
    || u == 0x2028 || u == 0x2029 || u == 0x202F || u == 0x205F || u == 0x3000 || u == 0xFEFF

def trim (s : Text) : Text :=
  ((s.dropWhile isWhite).reverse.dropWhile isWhite).reverse

/-- `Array.from(s)`: surrogate pairs stay together. -/
def codePoints : Text → List Text
  | [] => []
  | [u] => [[u]]
  | u :: v :: rest =>
    if 0xD800 ≤ u ∧ u ≤ 0xDBFF ∧ 0xDC00 ≤ v ∧ v ≤ 0xDFFF then [u, v] :: codePoints rest
    else [u] :: codePoints (v :: rest)

/-- Half of a surrogate pair. -/
def isSurrogate (u : CodeUnit) : Bool :=
  0xD800 ≤ u && u ≤ 0xDFFF

/-- The text with unpaired surrogates replaced, as encoding it in UTF-8 does. -/
def toWellFormed (s : Text) : Text :=
  (codePoints s).flatMap fun point =>
    match point with
    | [u] => if isSurrogate u then [0xFFFD] else [u]
    | pair => pair

/-- Whether every surrogate in the text is paired. -/
def WellFormed (s : Text) : Prop := toWellFormed s = s

instance (s : Text) : Decidable (WellFormed s) := inferInstanceAs (Decidable (_ = _))

/-- Texts joined by single newlines. -/
def joinLines : List Text → Text
  | [] => []
  | [line] => line
  | line :: rest => line ++ lf :: joinLines rest

/-- Lower-cases the ASCII letters and leaves every other code unit alone. -/
def asciiLower (u : CodeUnit) : CodeUnit :=
  if 65 ≤ u ∧ u ≤ 90 then u + 32 else u

/-- Whether a string begins with a lower-case pattern, ignoring ASCII case. -/
def startsWithFold : Text → Text → Bool
  | [], _ => true
  | _ :: _, [] => false
  | p :: ps, u :: us => asciiLower u == p && startsWithFold ps us

/-- At how many positions a lower-case pattern occurs, ignoring ASCII case. -/
def countFold (pattern : Text) : Text → Nat
  | [] => if startsWithFold pattern [] then 1 else 0
  | u :: us => (if startsWithFold pattern (u :: us) then 1 else 0) + countFold pattern us

/-- A code unit that no match of the pattern can contain. -/
def Barrier (pattern : Text) (u : CodeUnit) : Prop :=
  asciiLower u ∉ pattern

instance (pattern : Text) (u : CodeUnit) : Decidable (Barrier pattern u) :=
  inferInstanceAs (Decidable (_ ∉ _))

/-- A line comes before the others, and a newline between. -/
theorem joinLines_cons (line : Text) {rest : List Text} (more : rest ≠ []) :
    joinLines (line :: rest) = line ++ lf :: joinLines rest := by
  cases rest with
  | nil => exact absurd rfl more
  | cons next others => rfl

/-- The pieces of a text are put together again. -/
theorem flatten_codePoints (s : Text) : (codePoints s).flatten = s := by
  induction s using codePoints.induct with
  | case1 => rfl
  | case2 u => rfl
  | case3 u v rest pair ih => simp [codePoints, pair, ih]
  | case4 u v rest single ih => simp [codePoints, single, ih]

/-- Two runs of lines are joined by one more newline. -/
theorem joinLines_append {before after : List Text} (first : before ≠ []) (second : after ≠ []) :
    joinLines (before ++ after) = joinLines before ++ lf :: joinLines after := by
  induction before with
  | nil => exact absurd rfl first
  | cons line rest ih =>
    cases rest with
    | nil => rw [List.singleton_append, joinLines_cons _ second]; rfl
    | cons next others =>
      rw [List.cons_append, joinLines_cons _ (by simp), joinLines_cons _ (by simp), ih (by simp)]
      simp

/-- Every text starts with nothing. -/
@[simp] theorem startsWithFold_nil (s : Text) : startsWithFold [] s = true := by
  cases s <;> rfl

/-- No text starts with something. -/
@[simp] theorem startsWithFold_cons_nil (p : CodeUnit) (ps : Text) :
    startsWithFold (p :: ps) [] = false := rfl

/-- A match never reaches across a code unit it cannot contain. -/
theorem startsWithFold_append_barrier {pattern : Text} {stop : CodeUnit}
    (barrier : Barrier pattern stop) (before after : Text) :
    startsWithFold pattern (before ++ stop :: after) = startsWithFold pattern before := by
  -- The pattern is consumed from the front, so it either ends in the first part or meets the
  -- barrier.
  induction pattern generalizing before with
  | nil => simp
  | cons p ps ih =>
    have tail : Barrier ps stop := fun member => barrier (List.mem_cons_of_mem _ member)
    cases before with
    | nil =>
      have differs : asciiLower stop ≠ p := fun same => barrier (by simp [same])
      simp [startsWithFold, differs]
    | cons u us => simp [startsWithFold, ih tail us]

/-- A pattern cannot begin at a code unit it does not contain. -/
theorem startsWithFold_barrier {p : CodeUnit} {ps : Text} {stop : CodeUnit}
    (barrier : Barrier (p :: ps) stop) (after : Text) :
    startsWithFold (p :: ps) (stop :: after) = false := by
  simpa using startsWithFold_append_barrier barrier [] after

/-- Occurrences on the two sides of a barrier add up. -/
theorem countFold_append_barrier {p : CodeUnit} {ps : Text} {stop : CodeUnit}
    (barrier : Barrier (p :: ps) stop) (before after : Text) :
    countFold (p :: ps) (before ++ stop :: after)
      = countFold (p :: ps) before + countFold (p :: ps) after := by
  -- Each start position before the barrier sees the same prefix with and without the rest.
  induction before with
  | nil => simp [countFold, startsWithFold_barrier barrier]
  | cons u us ih =>
    have prefix_ := startsWithFold_append_barrier barrier (u :: us) after
    simp only [List.cons_append] at prefix_ ⊢
    simp only [countFold, prefix_, ih]
    omega

/-- A leading barrier adds no occurrence. -/
theorem countFold_cons_barrier {p : CodeUnit} {ps : Text} {stop : CodeUnit}
    (barrier : Barrier (p :: ps) stop) (after : Text) :
    countFold (p :: ps) (stop :: after) = countFold (p :: ps) after := by
  simpa [countFold] using countFold_append_barrier barrier [] after

/-- Text without the first letter of a pattern can be dropped from the front. -/
theorem countFold_append_of_absent {p : CodeUnit} {ps before : Text}
    (absent : ∀ u ∈ before, asciiLower u ≠ p) (after : Text) :
    countFold (p :: ps) (before ++ after) = countFold (p :: ps) after := by
  -- No position of the first part can start a match.
  induction before with
  | nil => rfl
  | cons u us ih =>
    have head : asciiLower u ≠ p := absent u (by simp)
    have tail := ih fun v member => absent v (List.mem_cons_of_mem _ member)
    simp [countFold, startsWithFold, head, tail]

/-- Text without the first letter of a pattern has no occurrence of it. -/
theorem countFold_eq_zero {p : CodeUnit} {ps s : Text}
    (absent : ∀ u ∈ s, asciiLower u ≠ p) : countFold (p :: ps) s = 0 := by
  simpa [countFold] using countFold_append_of_absent absent []

section Substitution

/-- A per-unit rewriting that only touches barriers, and turns them into text that starts no match.
-/
def PreservesMatches (p : CodeUnit) (ps : Text) (f : CodeUnit → Text) : Prop :=
  ∀ u, f u = [u] ∨ (Barrier (p :: ps) u ∧ ∃ v vs, f u = v :: vs ∧ Barrier (p :: ps) v ∧
    ∀ w ∈ vs, asciiLower w ≠ p)

variable {p : CodeUnit} {ps : Text} {f : CodeUnit → Text}

/-- A rewriting of barriers changes no match at the front. -/
theorem startsWithFold_flatMap (keeps : PreservesMatches p ps f) :
    ∀ (part s : Text), part ⊆ p :: ps →
    startsWithFold part (s.flatMap f) = startsWithFold part s := by
  -- The pattern is read off the front; a rewritten unit stops it on both sides.
  intro part
  induction part with
  | nil => simp
  | cons q qs ih =>
    intro s inside
    cases s with
    | nil => rfl
    | cons u us =>
      have tail : qs ⊆ p :: ps := fun v member => inside (List.mem_cons_of_mem _ member)
      have member : q ∈ p :: ps := inside (by simp)
      rcases keeps u with same | ⟨barrier, v, vs, shape, first, _⟩
      · simp [List.flatMap_cons, same, startsWithFold, ih us tail]
      · have left : (asciiLower u == q) = false :=
          beq_eq_false_iff_ne.mpr fun same => barrier (same ▸ member)
        have right : (asciiLower v == q) = false :=
          beq_eq_false_iff_ne.mpr fun same => first (same ▸ member)
        simp only [List.flatMap_cons, shape, List.cons_append, startsWithFold, left, right,
          Bool.false_and]

/-- Rewriting barriers leaves the number of occurrences alone. -/
theorem countFold_flatMap (keeps : PreservesMatches p ps f) (s : Text) :
    countFold (p :: ps) (s.flatMap f) = countFold (p :: ps) s := by
  -- Every unit is either kept or replaced by text that starts no match.
  induction s with
  | nil => rfl
  | cons u us ih =>
    have start := startsWithFold_flatMap keeps (p :: ps) (u :: us) (fun _ member => member)
    rcases keeps u with same | ⟨barrier, v, vs, shape, first, rest⟩
    · simp only [List.flatMap_cons, same, List.singleton_append] at start ⊢
      simp only [countFold, start, ih]
    · rw [List.flatMap_cons, shape, List.cons_append, countFold_cons_barrier first,
        countFold_append_of_absent rest, ih, countFold_cons_barrier barrier]

end Substitution

end Js
