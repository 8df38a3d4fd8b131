import Khala.Contracts.JsonSize
import Khala.Contracts.LocalLines
import Khala.Contracts.TextReaders
import Mathlib.Data.Nat.Digits.Defs

/-! Texts that can be shown on one line: how many code points they have, what joining and cutting
them leaves. -/

namespace Khala.Decode

open Js Local

/-- What can be shown on one line, in so many code points. -/
structure Line (maxPoints : Nat) (s : Text) : Prop where
  formed : isWellFormed s = true
  plain : s.any isControl = false
  visible : s.any isInvisible = false
  points : (codePoints s).length ≤ maxPoints

/-- A code point has four bytes at most. -/
private theorem pointSize_le (point : Text) : pointSize point ≤ 4 := by
  match point with
  | [] => exact Nat.le_refl 4
  | [u] => exact Nat.le_succ_of_le (pointSize_unit u).2
  | _ :: _ :: _ => exact Nat.le_refl 4

/-- A code point takes at most four bytes. -/
theorem utf8Length_le (s : Text) : utf8Length s ≤ 4 * (codePoints s).length := by
  rw [utf8Length]
  induction codePoints s with
  | nil => exact Nat.le_refl 0
  | cons point rest ih =>
    have := pointSize_le point
    rw [List.map_cons, List.sum_cons, List.length_cons]
    omega

/-- A line of so many code points has four times as many bytes at most. -/
theorem Line.fits {n : Nat} {s : Text} (line : Line n s) : utf8Length s ≤ 4 * n :=
  Nat.le_trans (utf8Length_le s) (Nat.mul_le_mul_left 4 line.points)

/-- A line that is short enough is a label. -/
theorem Line.isLabel {n maxBytes : Nat} {s : Text} (line : Line n s) (enough : 4 * n ≤ maxBytes) :
    IsLabel maxBytes s :=
  ⟨line.formed, Nat.le_trans line.fits enough, line.plain⟩

/-- A line that is short enough is shown. -/
theorem Line.isDisplay {n maxBytes maxPoints : Nat} {s : Text} (line : Line n s) (some_ : s ≠ [])
    (enough : 4 * n ≤ maxBytes) (few : n ≤ maxPoints) : IsDisplay maxBytes maxPoints s :=
  ⟨line.isLabel enough, line.visible, some_, Nat.le_trans line.points few⟩

/-- A line is one of any greater length. -/
theorem Line.mono {n m : Nat} {s : Text} (line : Line n s) (le : n ≤ m) : Line m s :=
  ⟨line.formed, line.plain, line.visible, Nat.le_trans line.points le⟩

/-- Two lines joined are a line of both lengths. -/
theorem Line.append {n m : Nat} {s t : Text} (line : Line n s) (line' : Line m t) :
    Line (n + m) (s ++ t) where
  formed := isWellFormed_append line.formed line'.formed
  plain := by rw [List.any_append, line.plain, line'.plain]; rfl
  visible := by rw [List.any_append, line.visible, line'.visible]; rfl
  points := by
    rw [codePoints_append (paired_of_isWellFormed line.formed), List.length_append]
    exact Nat.add_le_add line.points line'.points

/-- Whether a literal can be shown on one line. -/
def isLine (n : Nat) (s : Text) : Bool :=
  isWellFormed s && !s.any isControl && !s.any isInvisible && (codePoints s).length ≤ n

/-- A text that is checked is a line. -/
theorem Line.of_isLine {n : Nat} {s : Text} (line : isLine n s = true) : Line n s := by
  simp only [isLine, Bool.and_eq_true, Bool.not_eq_true', decide_eq_true_eq] at line
  exact ⟨line.1.1.1, line.1.1.2, line.1.2, line.2⟩

/-- Text in which something shows. -/
def Shows (s : Text) : Prop := ∃ u ∈ s, isWhite u = false

/-- A text that shows something shows it before another. -/
theorem Shows.append_left {s : Text} (shows_ : Shows s) (t : Text) : Shows (s ++ t) :=
  let ⟨u, inside, white⟩ := shows_
  ⟨u, List.mem_append_left _ inside, white⟩

/-- A text that shows something shows it behind another. -/
theorem Shows.append_right {t : Text} (shows_ : Shows t) (s : Text) : Shows (s ++ t) :=
  let ⟨u, inside, white⟩ := shows_
  ⟨u, List.mem_append_right _ inside, white⟩

/-- A text with a unit that is not white shows something. -/
theorem Shows.of_any {s : Text} (any : (s.any fun u => !isWhite u) = true) : Shows s := by
  obtain ⟨u, inside, white⟩ := List.any_eq_true.mp any
  exact ⟨u, inside, by simpa using white⟩

/-- Without the white at its front a text shows the same. -/
private theorem dropWhile_shows {s : Text} (shows_ : Shows s) : Shows (s.dropWhile isWhite) := by
  obtain ⟨u, inside, white⟩ := shows_
  refine ⟨u, ?_, white⟩
  rw [← List.takeWhile_append_dropWhile (p := isWhite) (l := s)] at inside
  rcases List.mem_append.mp inside with front | back
  · rw [List.all_eq_true.mp List.all_takeWhile u front] at white
    cases white
  · exact back

/-- Trimming leaves what shows. -/
theorem Shows.trim_ne_nil {s : Text} (shows_ : Shows s) : trim s ≠ [] := by
  obtain ⟨u, inside, white⟩ := dropWhile_shows shows_
  have again : Shows (s.dropWhile isWhite).reverse := ⟨u, List.mem_reverse.mpr inside, white⟩
  obtain ⟨v, inside', -⟩ := dropWhile_shows again
  rw [trim, ne_eq, List.reverse_eq_nil_iff]
  exact List.ne_nil_of_mem inside'

/-- A trimmed text that is not empty shows something. -/
theorem shows_trim {s : Text} (some_ : trim s ≠ []) : Shows (trim s) := by
  have nonempty : ((s.dropWhile isWhite).reverse.dropWhile isWhite) ≠ [] :=
    fun nothing => some_ (by rw [trim, nothing]; rfl)
  refine ⟨((s.dropWhile isWhite).reverse.dropWhile isWhite).head nonempty, ?_, ?_⟩
  · rw [trim, List.mem_reverse]
    exact List.head_mem nonempty
  · simpa using List.head_dropWhile_not isWhite nonempty

/-! ## Printable text -/

/-- A plain text that fits is a label. -/
theorem isLabel_plain {s : Text} (plain : Plain s) {maxBytes : Nat} (fits : s.length ≤ maxBytes) :
    IsLabel maxBytes s :=
  (label_eq_ok.mp (label_plain plain fits [])).2

/-- A plain text that fits is a line. -/
theorem line_plain {s : Text} (plain : Plain s) {n : Nat} (fits : s.length ≤ n) : Line n s := by
  obtain ⟨-, isLabel, visible⟩ := displayText_eq_ok.mp (displayText_plain plain fits [])
  refine ⟨isLabel.formed, isLabel.plain, visible, ?_⟩
  rw [codePoints_plain plain, List.length_map]
  exact fits

/-- Digits are plain. -/
theorem plain_digits {digits : Text} (all : ∀ u ∈ digits, isDigit u = true) : Plain digits := by
  intro u inside
  have digit := all u inside
  simp only [isDigit, Bool.and_eq_true, decide_eq_true_eq, UInt16.le_iff_toNat_le,
    UInt16.toNat_ofNat] at digit
  omega

/-- A number is plain. -/
theorem plain_decimal (n : Nat) : Plain (decimal n) := plain_digits fun _ => isDigit_decimal

/-- A safe integer has at most sixteen digits. -/
theorem length_decimal {n : Nat} (safe : n ≤ maxSafeInteger) : (decimal n).length ≤ 16 := by
  rw [decimal, List.length_map]
  have bound : maxSafeInteger < 10 ^ 16 := by decide
  exact Nat.toDigits_length 10 n 16 (by decide) (by omega)

/-- A safe integer is a line of sixteen digits at most. -/
theorem line_decimal {n : Nat} (safe : n ≤ maxSafeInteger) : Line 16 (decimal n) :=
  line_plain (plain_decimal n) (length_decimal safe)

/-! ## Cutting -/

/-- Some of the first code points of a text are the code points of what they make up. -/
theorem codePoints_take {s : Text} (paired : Paired s) (count : Nat) :
    codePoints ((codePoints s).take count).flatten = (codePoints s).take count := by
  -- The induction follows the points: a single unit or a pair.
  induction paired generalizing count with
  | nil => cases count <;> rfl
  | unit single others ih =>
    cases count with
    | zero => rfl
    | succ count =>
      rw [codePoints_cons single, List.take_succ_cons, List.flatten_cons, List.singleton_append,
        codePoints_cons single, ih]
  | @pair u v rest high low others ih =>
    have both : 0xD800 ≤ u ∧ u ≤ 0xDBFF ∧ 0xDC00 ≤ v ∧ v ≤ 0xDFFF := ⟨high.1, high.2, low.1, low.2⟩
    cases count with
    | zero => rfl
    | succ count =>
      rw [codePoints, if_pos both, List.take_succ_cons, List.flatten_cons, List.cons_append,
        List.cons_append, List.nil_append,
        codePoints, if_pos both, ih]

/-- The first code points of a line are a line. -/
theorem Line.take {n : Nat} {s : Text} (line : Line n s) (count : Nat) :
    Line count ((codePoints s).take count).flatten := by
  -- What is taken are points of the text, so all of its units were there.
  have points := codePoints_take (paired_of_isWellFormed line.formed) count
  have among : ∀ u ∈ ((codePoints s).take count).flatten, u ∈ s := by
    intro u inside
    obtain ⟨point, taken, within⟩ := List.mem_flatten.mp inside
    rw [← flatten_codePoints s]
    exact List.mem_flatten.mpr ⟨point, List.mem_of_mem_take taken, within⟩
  -- Hence nothing comes in that was not there.
  have none_ : ∀ {accepts : CodeUnit → Bool}, s.any accepts = false →
      ((codePoints s).take count).flatten.any accepts = false := by
    intro accepts no
    rw [List.any_eq_false] at no ⊢
    exact fun u inside => no u (among u inside)
  refine ⟨?_, none_ line.plain, none_ line.visible, ?_⟩
  · rw [isWellFormed, points]
    exact List.all_eq_true.mpr fun point taken =>
      List.all_eq_true.mp line.formed point (List.mem_of_mem_take taken)
  · rw [points]
    exact List.length_take_le count _

end Khala.Decode
