import Khala.Contracts.MessageContent
import Khala.Contracts.RenameEvent

/-! What the readers of texts accept, apart from the path that an error would name. -/

namespace Khala.Decode

open Js

/-- Text on one line up to a size. -/
structure IsLabel (maxBytes : Nat) (s : Text) : Prop where
  formed : isWellFormed s = true
  fits : utf8Length s ≤ maxBytes
  plain : s.any isControl = false

/-- A label that shows everything it holds, up to a number of code points. -/
structure IsDisplay (maxBytes maxPoints : Nat) (s : Text) : Prop extends IsLabel maxBytes s where
  visible : s.any isInvisible = false
  nonempty : s ≠ []
  points : (codePoints s).length ≤ maxPoints

/-- A label is one of any greater length. -/
theorem IsLabel.mono {maxBytes maxBytes' : Nat} {s : Text} (label : IsLabel maxBytes s)
    (le : maxBytes ≤ maxBytes') :
    IsLabel maxBytes' s :=
  ⟨label.formed, Nat.le_trans label.fits le, label.plain⟩

/-- Which texts are read as labels. -/
theorem label_eq_ok {s path result : Text} {maxBytes : Nat} :
    label (.string s) path maxBytes = .ok result ↔ result = s ∧ IsLabel maxBytes s := by
  simp only [label, bind_eq_ok, text_eq_ok, require_eq_ok, pure, Except.pure, Except.ok.injEq,
    Bool.not_eq_true']
  constructor
  · rintro ⟨_, ⟨rfl, formed, fits, -⟩, _, plain, rfl⟩
    exact ⟨rfl, formed, fits, plain⟩
  · rintro ⟨rfl, formed, fits, plain⟩
    -- No label holds the null unit, which is a control character.
    have zero : result.contains 0 = false := by
      rw [List.contains_eq_mem, decide_eq_false_iff_not]
      exact fun inside => List.any_eq_false.mp plain 0 inside (by decide)
    exact ⟨result, ⟨rfl, formed, fits, zero⟩, (), plain, rfl⟩

/-- Which texts are read for display. -/
theorem displayText_eq_ok {s path result : Text} {maxBytes : Nat} :
    displayText (.string s) path maxBytes = .ok result ↔ result = s ∧ IsLabel maxBytes s
      ∧ s.any isInvisible = false := by
  simp only [displayText, bind_eq_ok, label_eq_ok, require_eq_ok, pure, Except.pure,
    Except.ok.injEq, Bool.not_eq_true']
  constructor
  · rintro ⟨_, ⟨rfl, isLabel⟩, _, visible, rfl⟩
    exact ⟨rfl, isLabel, visible⟩
  · rintro ⟨rfl, isLabel, visible⟩
    exact ⟨result, ⟨rfl, isLabel⟩, (), visible, rfl⟩

/-- Which texts are read as not empty. -/
theorem nonempty_eq_ok {s path result : Text} :
    nonempty s path = .ok result ↔ result = s ∧ s ≠ [] := by
  simp only [nonempty, bind_eq_ok, require_eq_ok, pure, Except.pure, Except.ok.injEq]
  cases s with
  | nil => simp
  | cons u rest => simp [eq_comm]

/-- Which texts are read for display within two bounds. -/
theorem display_eq_ok {s path result : Text} {maxBytes maxPoints : Nat} :
    display (.string s) path maxBytes maxPoints = .ok result ↔ result = s
      ∧ IsDisplay maxBytes maxPoints s := by
  simp only [display, bind_eq_ok, displayText_eq_ok, nonempty_eq_ok, require_eq_ok,
    decide_eq_true_eq, pure, Except.pure,
    Except.ok.injEq]
  constructor
  · rintro ⟨_, ⟨rfl, isLabel, visible⟩, _, ⟨rfl, some_⟩, _, points, rfl⟩
    exact ⟨rfl, isLabel, visible, some_, points⟩
  · rintro ⟨rfl, isLabel, visible, some_, points⟩
    exact ⟨result, ⟨rfl, isLabel, visible⟩, result, ⟨rfl, some_⟩, (), points, rfl⟩

/-- What a reader of labels that are not empty accepts. -/
theorem label_nonempty_eq_ok {s path path' result : Text} {maxBytes : Nat} :
    (label (.string s) path maxBytes >>= fun value => nonempty value path') = .ok result
      ↔ result = s ∧ IsLabel maxBytes s ∧ s ≠ [] := by
  simp only [bind_eq_ok, label_eq_ok, nonempty_eq_ok]
  constructor
  · rintro ⟨_, ⟨rfl, isLabel⟩, rfl, some_⟩
    exact ⟨rfl, isLabel, some_⟩
  · rintro ⟨rfl, isLabel, some_⟩
    exact ⟨result, ⟨rfl, isLabel⟩, rfl, some_⟩

/-- Which numbers are read as safe integers. -/
theorem safeInteger_eq_ok {n value : Nat} {path : Text} :
    safeInteger (.number (natNumber n)) path = .ok value ↔ value = n ∧ n ≤ maxSafeInteger := by
  simp only [safeInteger, natNumber, spelledNat_decimal, fail]
  split
  · rename_i small
    simp [small, eq_comm]
  · rename_i large
    simp [large]

end Khala.Decode
