import Khala.Contracts.Decode
import Khala.Js.Utf8

/-! How the UTF-8 size of a text follows from the sizes of its parts. -/

namespace Khala.Decode

open Js

/-- No text has no bytes. -/
@[simp] theorem utf8Length_nil : utf8Length [] = 0 := rfl

/-- A unit is encoded in one to three bytes. -/
theorem pointSize_unit (u : CodeUnit) : 1 ≤ pointSize [u] ∧ pointSize [u] ≤ 3 := by
  simp only [pointSize]
  split
  · exact ⟨by decide, by decide⟩
  · split <;> exact ⟨by decide, by decide⟩

/-- A unit followed by one that it makes no pair with is a code point. -/
theorem utf8Length_cons_single {u v : CodeUnit} {rest : Text}
    (single : ¬ (0xD800 ≤ u ∧ u ≤ 0xDBFF ∧ 0xDC00 ≤ v ∧ v ≤ 0xDFFF)) :
    utf8Length (u :: v :: rest) = pointSize [u] + utf8Length (v :: rest) := by
  simp only [utf8Length, codePoints, if_neg single, List.map_cons, List.sum_cons]

/-- A pair of surrogates has four bytes. -/
theorem utf8Length_cons_pair {u v : CodeUnit} {rest : Text}
    (pair : 0xD800 ≤ u ∧ u ≤ 0xDBFF ∧ 0xDC00 ≤ v ∧ v ≤ 0xDFFF) :
    utf8Length (u :: v :: rest) = 4 + utf8Length rest := by
  simp only [utf8Length, codePoints, if_pos pair, List.map_cons, List.sum_cons]
  rfl

/-- A code point that is no half of a pair ends what is before it and begins nothing. -/
theorem codePoints_append_stop {u : CodeUnit} (whole : isSurrogate u = false)
    (before after : Text) :
    codePoints (before ++ u :: after) = codePoints before ++ [u] :: codePoints after := by
  have notLow : ¬ (0xDC00 ≤ u ∧ u ≤ 0xDFFF) := by
    intro ⟨lower, upper⟩
    have inside : isSurrogate u = true := by
      simp only [isSurrogate, Bool.and_eq_true, decide_eq_true_eq]
      exact ⟨UInt16.le_trans (by decide) lower, upper⟩
    rw [inside] at whole
    cases whole
  induction before using codePoints.induct with
  | case1 => exact codePoints_cons whole after
  | case2 w =>
    -- A single unit before the stop makes no pair with it.
    have apart : ¬ (0xD800 ≤ w ∧ w ≤ 0xDBFF ∧ 0xDC00 ≤ u ∧ u ≤ 0xDFFF) :=
      fun pair => notLow pair.2.2
    simp only [List.singleton_append, codePoints, if_neg apart, codePoints_cons whole]
  | case3 w v rest pair ih =>
    simp only [List.cons_append] at ih ⊢
    rw [codePoints, if_pos pair, ih, codePoints, if_pos pair, List.cons_append]
  | case4 w v rest single ih =>
    simp only [List.cons_append] at ih ⊢
    rw [codePoints, if_neg single, ih, codePoints, if_neg single, List.cons_append]

/-- Sizes add up around a unit that is no half of a pair. -/
theorem utf8Length_append_stop {u : CodeUnit} (whole : isSurrogate u = false)
    (before after : Text) :
    utf8Length (before ++ u :: after) = utf8Length before + pointSize [u] + utf8Length after := by
  simp only [utf8Length, codePoints_append_stop whole, List.map_append, List.map_cons,
    List.sum_append, List.sum_cons]
  omega

/-- A unit that is no surrogate has its own bytes. -/
theorem utf8Length_cons_stop {u : CodeUnit} (whole : isSurrogate u = false) (after : Text) :
    utf8Length (u :: after) = pointSize [u] + utf8Length after := by
  simpa using utf8Length_append_stop whole [] after

/-- A text never gets smaller by what is added at its end. -/
theorem utf8Length_le_append (before after : Text) :
    utf8Length before ≤ utf8Length (before ++ after) := by
  -- The induction follows the points of the first text.
  induction before using codePoints.induct with
  | case1 => exact Nat.zero_le _
  | case2 u =>
    have own : utf8Length [u] = pointSize [u] := by simp [utf8Length, codePoints]
    rw [own]
    -- What is appended may make a pair with its last unit.
    cases after with
    | nil => exact le_of_eq own.symm
    | cons v rest =>
      rw [List.singleton_append]
      by_cases pair : 0xD800 ≤ u ∧ u ≤ 0xDBFF ∧ 0xDC00 ≤ v ∧ v ≤ 0xDFFF
      · -- Half of a pair takes three bytes, and the pair four.
        have small := (pointSize_unit u).2
        rw [utf8Length_cons_pair pair]
        omega
      · rw [utf8Length_cons_single pair]
        omega
  | case3 u v rest pair ih =>
    simp only [List.cons_append]
    rw [utf8Length_cons_pair pair, utf8Length_cons_pair pair]
    omega
  | case4 u v rest single ih =>
    simp only [List.cons_append] at ih ⊢
    rw [utf8Length_cons_single single, utf8Length_cons_single single]
    omega

/-- Every unit takes at least a byte. -/
theorem length_le_utf8Length (s : Text) : s.length ≤ utf8Length s := by
  -- The induction follows the points: a pair takes four bytes, a single unit one at least.
  induction s using codePoints.induct with
  | case1 => exact le_refl 0
  | case2 u =>
    have own : utf8Length [u] = pointSize [u] := by simp [utf8Length, codePoints]
    have small := (pointSize_unit u).1
    rw [own]
    exact small
  | case3 u v rest pair ih =>
    rw [utf8Length_cons_pair pair]
    simp only [List.length_cons]
    omega
  | case4 u v rest single ih =>
    have small := (pointSize_unit u).1
    rw [utf8Length_cons_single single]
    simp only [List.length_cons] at ih ⊢
    omega

end Khala.Decode
