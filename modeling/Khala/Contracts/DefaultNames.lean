import Khala.Contracts.Names
import Khala.Contracts.TextSize

/-! Laws of default names: they are recognised, and names with different numbers differ where case
is ignored. -/

namespace Khala

open Js

/-- What `toLowerCase` does from a hyphen on, when only ASCII follows: no letter before it is seen
in another light. -/
def LowersTail (toLowerCase : Text → Text) : Prop :=
  ∀ before tail : Text, tail.head? = some 45 → (∀ u ∈ tail, u < 128) →
    toLowerCase (before ++ tail) = toLowerCase before ++ tail.map asciiLower

/-- What follows the username in a default name. -/
def defaultTail (harness : Text) (n : Nat) : Text :=
  lit "-" ++ modelName harness ++ if n = 1 then [] else lit "-" ++ decimal n

/-- A default name is the username and a tail. -/
theorem defaultAgentName_eq (username harness : Text) (n : Nat) :
    defaultAgentName username harness n = username ++ defaultTail harness n := by
  simp only [defaultAgentName, defaultTail, List.append_assoc]

/-- A hyphen is one unit. -/
private theorem lit_hyphen : lit "-" = [45] := by decide

/-- A model's name is one of those listed. -/
theorem modelName_mem (harness : Text) : modelName harness ∈ harnessModels.map Prod.snd := by
  rw [modelName]
  cases found : harnessModels.lookup harness with
  | none => decide
  | some model =>
    have inside : (harness, model) ∈ harnessModels := by
      rw [List.lookup_eq_some_iff] at found
      obtain ⟨before, after, is, -⟩ := found
      rw [is]
      exact List.mem_append_right _ List.mem_cons_self
    exact List.mem_map.mpr ⟨_, inside, rfl⟩

/-- A model's name has digits, letters, hyphens and dots at most. -/
private theorem modelName_units (harness : Text) :
    ∀ u ∈ modelName harness, 45 ≤ u.toNat ∧ u.toNat ≤ 122 := by
  have all : ((harnessModels.map Prod.snd).all fun model => model.all fun u =>
    decide (45 ≤ u.toNat ∧ u.toNat ≤ 122)) = true := by
    decide
  simpa using List.all_eq_true.mp all _ (modelName_mem harness)

/-- Where the digits stand. -/
private theorem digit_bounds {u : CodeUnit} (digit : isDigit u = true) :
    48 ≤ u.toNat ∧ u.toNat ≤ 57 := by
  simpa [isDigit, UInt16.le_iff_toNat_le] using digit

/-- A digit has no lower case. -/
theorem asciiLower_digit {u : CodeUnit} (digit : isDigit u = true) : asciiLower u = u := by
  rw [asciiLower, if_neg]
  rintro ⟨above, -⟩
  rw [UInt16.le_iff_toNat_le] at above
  exact absurd (Nat.le_trans above (digit_bounds digit).2) (by decide)

/-- The units of a name lie between the hyphen and the letter z. -/
theorem defaultTail_units (harness : Text) (n : Nat) :
    ∀ u ∈ defaultTail harness n, 45 ≤ u.toNat ∧ u.toNat ≤ 122 := by
  -- The tail is a hyphen with the model, and perhaps a hyphen with the number.
  intro u inside
  rw [defaultTail, lit_hyphen] at inside
  rcases List.mem_append.mp inside with front | number
  · rcases List.mem_cons.mp front with hyphen | model
    · rw [hyphen]
      decide
    -- A unit of the model's name.
    · exact modelName_units harness u model
  · split at number
    · cases number
    · rcases List.mem_cons.mp number with hyphen | digit
      · rw [hyphen]
        decide
      -- A digit of the number.
      · have := digit_bounds (isDigit_decimal digit)
        omega

/-- Such units are ASCII. -/
theorem ascii_of_units {s : Text} (units : ∀ u ∈ s, 45 ≤ u.toNat ∧ u.toNat ≤ 122) :
    ∀ u ∈ s, u < 128 := by
  intro u inside
  rw [UInt16.lt_iff_toNat_lt]
  exact Nat.lt_of_le_of_lt (units u inside).2 (by decide)

/-- A tail is never empty. -/
theorem defaultTail_ne_nil (harness : Text) (n : Nat) : defaultTail harness n ≠ [] := by
  rw [defaultTail, lit_hyphen]
  simp

/-- A default name in lower case is the username and the tail in lower case. -/
theorem toLowerCase_default {toLowerCase : Text → Text} (lowers : LowersTail toLowerCase)
    (username harness : Text) (n : Nat) :
    toLowerCase (defaultAgentName username harness n) = toLowerCase username
      ++ (defaultTail harness n).map asciiLower := by
  rw [defaultAgentName_eq]
  refine lowers username _ ?_ (ascii_of_units (defaultTail_units harness n))
  rw [defaultTail, lit_hyphen]
  rfl

/-- Default names of one user and one model are told apart by their numbers. -/
theorem default_injective {toLowerCase : Text → Text} (lowers : LowersTail toLowerCase)
    (username harness : Text) :
    Function.Injective fun n => toLowerCase (defaultAgentName username harness n) := by
  intro m n same
  simp only [toLowerCase_default lowers, List.append_cancel_left_eq, defaultTail, lit_hyphen,
    List.map_append] at same
  have decimals : ∀ k, (decimal k).map asciiLower = decimal k := fun k =>
    (List.map_congr_left fun u inside => asciiLower_digit (isDigit_decimal inside)).trans
      (List.map_id _)
  split at same <;> split at same
  · rename_i one one'
    rw [one, one']
  · simp at same
  · simp at same
  · rw [List.map_append, List.map_append, decimals, decimals, List.append_cancel_left_eq] at same
    rw [← readDigits_decimal m, same, readDigits_decimal]

/-- The text after a default name's model is a number. -/
private theorem isNumbering_number (n : Nat) :
    isNumbering (if n = 1 then [] else lit "-" ++ decimal n) = true := by
  split
  · rfl
  · rw [lit_hyphen, List.singleton_append, isNumbering]
    have digits : (decimal n).all isDigit = true := List.all_eq_true.mpr fun u inside =>
      isDigit_decimal inside
    have some_ : (decimal n).isEmpty = false := by simpa using decimal_ne_nil n
    rw [digits, some_]
    rfl

/-- A default name is recognised as one. -/
theorem isDefaultAgentName_default (fold : Text → Text) (username harness : Text) (n : Nat) :
    isDefaultAgentName fold (defaultAgentName username harness n) username harness = true := by
  -- The points of the name are those of its stem, followed by those of the number.
  have points : ∃ rest, codePoints (defaultAgentName username harness n)
      = codePoints (username ++ lit "-" ++ modelName harness) ++ rest
        ∧ rest.flatten = if n = 1 then [] else lit "-" ++ decimal n := by
    rw [defaultAgentName]
    split
    · exact ⟨[], by rw [List.append_nil, List.append_nil], rfl⟩
    · rw [lit_hyphen, List.singleton_append, Decode.codePoints_append_stop (by decide)]
      refine ⟨[45] :: codePoints (decimal n), rfl, ?_⟩
      rw [List.flatten_cons, flatten_codePoints]
      rfl
  obtain ⟨rest, all, number⟩ := points
  -- So the stem is found at the front, and the rest is a number.
  rw [isDefaultAgentName, all]
  simp only [List.length_map, List.take_left', List.drop_left', beq_self_eq_true, Bool.true_and]
  rw [number]
  exact isNumbering_number n

end Khala
