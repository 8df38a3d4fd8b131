import Khala.Contracts.EventReading
import Khala.Contracts.FromAiur
import Khala.Contracts.TextLines

/-! Cleaned fields pass the checks of the encoder: each on its own, and the summary in the line it
is shown on. -/

namespace Khala.Aiur

open Js Decode Event Local

/-! ## The readers -/

/-- A text that is read is there and is not empty. -/
theorem str_eq_some {value : Option Json} {text : Text} (read : str value = some text) :
    value = some (.string text) ∧ text ≠ [] := by
  unfold str at read
  split at read
  · rename_i content
    by_cases nothing : content = []
    · rw [if_pos nothing] at read
      cases read
    · rw [if_neg nothing] at read
      obtain rfl : content = text := Option.some.inj read
      exact ⟨rfl, nothing⟩
  · cases read

/-- A text that is valid is itself, within its bounds. -/
theorem validText_eq_some {text result : Text} {bytes : Nat} {points : Option Nat} {display : Bool}
    (read : validText text bytes points display = some result) :
    result = text ∧ IsLabel bytes text ∧ (display = true → text.any isInvisible = false)
      ∧ ∀ n, points = some n → (codePoints text).length ≤ n := by
  -- Each check that the function makes is one of the conditions.
  unfold validText at read
  split at read
  · rename_i checked isChecked
    split at read
    · cases read
    · rename_i few
      obtain rfl : checked = result := Option.some.inj read
      -- The points are counted only where a limit is given.
      have counts : ∀ n, points = some n → (codePoints checked).length ≤ n := by
        rintro n rfl
        simpa using few
      cases display with
      | true =>
        obtain ⟨rfl, isLabel, visible⟩ := displayText_eq_ok.mp isChecked
        exact ⟨rfl, isLabel, fun _ => visible, counts⟩
      | false =>
        obtain ⟨rfl, isLabel⟩ := label_eq_ok.mp isChecked
        exact ⟨rfl, isLabel, nofun, counts⟩
  · cases read

/-- A value that is valid is a text within its bounds, and not empty. -/
theorem valid_eq_some {value : Option Json} {result : Text} {bytes : Nat} {points : Option Nat}
    {display : Bool} (read : valid value bytes points display = some result) :
    result ≠ [] ∧ IsLabel bytes result ∧ (display = true → result.any isInvisible = false)
      ∧ ∀ n, points = some n → (codePoints result).length ≤ n := by
  obtain ⟨text, isText, isValid⟩ := Option.bind_eq_some_iff.mp read
  obtain ⟨rfl, checks⟩ := validText_eq_some isValid
  exact ⟨(str_eq_some isText).2, checks⟩

/-- A number that is read is a positive safe integer. -/
theorem num_eq_some {value : Option Json} {n : Nat} (read : num value = some n) :
    n ≤ maxSafeInteger ∧ n ≠ 0 := by
  unfold num at read
  split at read
  · have bounds := (Option.filter_eq_some_iff.mp read).2
    simp only [decide_eq_true_eq] at bounds
    exact ⟨bounds.2, Nat.ne_of_gt bounds.1⟩
  · cases read

/-- An identifier that is read is a label. -/
theorem idOf_eq_some {value : Option Json} {id : Text} (read : idOf value = some id) :
    IsLabel 64 id := by
  unfold idOf at read
  split at read
  · obtain ⟨rfl, isLabel, -⟩ := validText_eq_some read
    exact isLabel
  · exact (valid_eq_some read).2.1

/-- A line that is cut is short enough and shows something. -/
theorem cutLine_eq_some {text line : Text} {max : Nat}
    (read : cutLine (trim text) max = some line) :
    Line max line ∧ Shows line := by
  unfold cutLine at read
  split at read
  · cases read
  · rename_i useful
    have some_ : trim text ≠ [] := fun nothing => useful (.inl nothing)
    split at read
    · obtain ⟨rfl, isLabel, visible, points⟩ := validText_eq_some read
      exact ⟨⟨isLabel.formed, isLabel.plain, visible rfl, points max rfl⟩,
        Shows.append_right (Shows.of_any (by decide)) _⟩
    · obtain ⟨rfl, isLabel, visible, points⟩ := validText_eq_some read
      exact ⟨⟨isLabel.formed, isLabel.plain, visible rfl, points max rfl⟩, shows_trim some_⟩

/-- What is read as one line can be shown on it, and shows something. -/
theorem oneLine_eq_some {value : Option Json} {line : Text} {max : Nat}
    (read : oneLine value max = some line) :
    Line max line ∧ Shows line := by
  obtain ⟨text, -, isCut⟩ := Option.bind_eq_some_iff.mp read
  exact cutLine_eq_some isCut

/-- A branch that is read is a label without a leading `refs/`. -/
theorem branch_eq_some {value : Option Json} {name : Text} (read : branch value = some name) :
    (IsLabel 255 name ∧ name ≠ []) ∧ (lit "refs/").isPrefixOf name = false := by
  obtain ⟨ref, -, rest⟩ := Option.bind_eq_some_iff.mp read
  simp only at rest
  split at rest
  · cases rest
  · rename_i short
    obtain ⟨text, isText, isValid⟩ := Option.bind_eq_some_iff.mp rest
    obtain ⟨same, some_⟩ := str_eq_some isText
    obtain rfl : withoutHeads ref = text := Json.string.inj (Option.some.inj same)
    obtain ⟨rfl, isLabel, -⟩ := validText_eq_some isValid
    exact ⟨⟨isLabel, some_⟩, Bool.eq_false_iff.mpr short⟩

/-- A text of plain units is plain. -/
private theorem plain_of_units {accepts : CodeUnit → Bool} {s : Text}
    (units : ∀ u, accepts u = true → 0x20 ≤ u.toNat ∧ u.toNat ≤ 0x7E)
    (all : ∀ u ∈ s, accepts u = true) : Plain s :=
  fun u inside => units u (all u inside)

/-- A hexadecimal digit is one in lower case. -/
private theorem hex_lower {u : CodeUnit} (hex : isHexUnit u = true) :
    (isDigit (asciiLower u) || (97 ≤ asciiLower u && asciiLower u ≤ 102)) = true := by
  have small : u.toNat ≤ 102 := by
    simp only [isHexUnit, isDigit, Bool.or_eq_true, Bool.and_eq_true, decide_eq_true_eq,
      UInt16.le_iff_toNat_le,
      UInt16.toNat_ofNat] at hex
    omega
  have table : ∀ n, n ≤ 102 → isHexUnit (UInt16.ofNat n) = true →
      (isDigit (asciiLower (UInt16.ofNat n))
        || (97 ≤ asciiLower (UInt16.ofNat n) && asciiLower (UInt16.ofNat n) ≤ 102)) = true := by
    decide
  have := table u.toNat small
  rw [UInt16.ofNat_toNat] at this
  exact this hex

/-- What is read as a commit has the form of one, and is printable. -/
theorem sha_eq_some {value : Option Json} {commit : Text} (read : sha value = some commit) :
    Plain commit ∧ commit.length ≤ 64 ∧ isSha commit = true := by
  unfold sha at read
  split at read
  · rename_i text
    split at read
    · rename_i shape
      obtain ⟨long, short, hex⟩ := shape
      obtain rfl := Option.some.inj read
      -- In lower case the digits stay digits, and the letters lie between a and f.
      have units : ∀ u ∈ text.map asciiLower, (isDigit u || (97 ≤ u && u ≤ 102)) = true := by
        intro u inside
        obtain ⟨v, inside', rfl⟩ := List.mem_map.mp inside
        exact hex_lower (List.all_eq_true.mp hex v inside')
      refine ⟨plain_of_units (fun u unit => ?_) units, by rwa [List.length_map], ?_⟩
      · simp only [isDigit, Bool.or_eq_true, Bool.and_eq_true, decide_eq_true_eq,
          UInt16.le_iff_toNat_le, UInt16.toNat_ofNat] at unit
        omega
      · rw [isSha, List.length_map, decide_eq_true long, decide_eq_true short,
          List.all_eq_true.mpr units]
        rfl
    · cases read
  · cases read

/-- The units of joined parts are those of the parts and the separator. -/
private theorem mem_intercalate {separator u : CodeUnit} {parts : List Text}
    (inside : u ∈ [separator].intercalate parts) :
    u = separator ∨ ∃ part ∈ parts, u ∈ part := by
  -- The induction is on the parts.
  induction parts with
  | nil => cases inside
  | cons part rest ih =>
    cases rest with
    | nil =>
      rw [List.intercalate_singleton] at inside
      exact .inr ⟨part, List.mem_cons_self, inside⟩
    | cons next others =>
      rw [List.intercalate_cons_cons, List.mem_append, List.mem_append, List.mem_singleton]
        at inside
      rcases inside with (here | same) | later
      · exact .inr ⟨part, List.mem_cons_self, here⟩
      · exact .inl same
      · exact (ih later).imp id fun ⟨found, among, within⟩ =>
          ⟨found, List.mem_cons_of_mem _ among, within⟩

/-- A kind is plain and not empty. -/
theorem isKind_plain {kind : Text} (isKind_ : isKind kind = true) : Plain kind ∧ kind ≠ [] := by
  have parts := List.all_eq_true.mp isKind_
  refine ⟨fun u inside => ?_, ?_⟩
  -- A unit of the kind is a dot, or stands in one of its parts.
  · rw [← (@List.intercalate_splitOn _ kind _ _ 46)] at inside
    rcases mem_intercalate inside with rfl | ⟨part, among, within⟩
    · decide
    -- A part consists of letters, digits and a few signs.
    · have unit := (Bool.and_eq_true_iff.mp (parts part among)).2
      have := List.all_eq_true.mp unit u within
      simp only [isKindUnit, isDigit, Bool.or_eq_true, Bool.and_eq_true, decide_eq_true_eq,
        beq_iff_eq, UInt16.le_iff_toNat_le,
        ← UInt16.toNat_inj, UInt16.toNat_ofNat] at this
      omega
  · rintro rfl
    cases isKind_

/-- The kind of every event is a label of its form. -/
theorem kindOf_checks (cls : Text) :
    (IsLabel 128 (kindOf cls) ∧ kindOf cls ≠ []) ∧ isKind (kindOf cls) = true := by
  rw [kindOf]
  split
  · rename_i ordinary
    obtain ⟨plain, some_⟩ := isKind_plain ordinary.2
    rw [utf8Length_plain plain] at ordinary
    exact ⟨⟨isLabel_plain plain ordinary.1, some_⟩, ordinary.2⟩
  · exact ⟨⟨isLabel_plain (plain_of_all (by decide)) (by decide), by decide⟩, by decide⟩

/-- The kind is one of coordination only when the class is. -/
theorem isCoordinationKind_kindOf (cls : Text) :
    isCoordinationKind (kindOf cls) = isCoordinationKind cls := by
  rw [kindOf]
  split
  · rfl
  · rename_i strange
    -- The kinds of coordination are short and match the pattern.
    have known : isCoordinationKind cls = false := by
      rw [Bool.eq_false_iff]
      intro coordinates
      have among := List.contains_iff_mem.mp coordinates
      have ordinary : ∀ kind ∈ coordinationKinds, utf8Length kind ≤ 128
        ∧ isKind kind = true := by decide
      exact strange (ordinary cls among)
    rw [known]
    decide

/-- A link that is read is short enough and of its form. -/
theorem https_eq_some {isHttps : Text → Bool} {value : Option Json} {url : Text}
    (read : https isHttps value = some url) :
    utf8Length url ≤ 2048 ∧ isHttps url = true := by
  obtain ⟨text, -, rest⟩ := Option.bind_eq_some_iff.mp read
  split at rest
  · cases rest
  · rename_i small
    split at rest
    · rename_i secure
      obtain rfl := Option.some.inj rest
      exact ⟨Nat.not_lt.mp fun large => small (.inl large), secure⟩
    · cases rest

/-- A number that is read of a review's link is a positive safe integer. -/
theorem reviewPr_eq_some {url : Text} {n : Nat} (read : reviewPr url = some n) :
    n ≤ maxSafeInteger ∧ n ≠ 0 := by
  unfold reviewPr at read
  simp only at read
  split at read
  · have bounds := (Option.filter_eq_some_iff.mp read).2
    simp only [decide_eq_true_eq] at bounds
    exact ⟨bounds.2, Nat.ne_of_gt bounds.1⟩
  · cases read

end Khala.Aiur
