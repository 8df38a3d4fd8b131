import Khala.Agent.DeliverCore

/-! The records of a frame: its lines, each with the indented lines that continue it. -/

namespace Khala

open Js

/-- Whether the text after a newline starts with the two spaces of a continuation line. -/
def indented : Text → Bool
  | a :: b :: _ => a == 32 && b == 32
  | _ => false

/-- The records of a text: it is split at newlines that are not followed by two spaces. -/
def splitRecords : Text → List Text
  | [] => [[]]
  | u :: rest =>
    if u == lf && !indented rest then [] :: splitRecords rest
    else match splitRecords rest with
      | [] => [[u]]
      | record :: others => (u :: record) :: others

/-- A text without a newline that would split it. -/
def unbroken : Text → Bool
  | [] => true
  | u :: rest => (u != lf || indented rest) && unbroken rest

/-- A unit other than a newline splits nothing. -/
theorem unbroken_cons {u : CodeUnit} (other : u ≠ lf) (rest : Text) :
    unbroken (u :: rest) = unbroken rest := by
  simp [unbroken, other]

/-- Text behind a newline starts no record when it is indented. -/
theorem unbroken_newline (rest : Text) :
    unbroken (lf :: rest) = (indented rest && unbroken rest) := by
  simp [unbroken]

/-- What starts with no blank is not indented. -/
theorem indented_cons {u : CodeUnit} (solid : u ≠ 32) (rest : Text) :
    indented (u :: rest) = false := by
  cases rest <;> simp [indented, solid]

/-- What comes behind something solid does not decide the indentation. -/
@[simp] theorem indented_append_stop {stop : CodeUnit} (solid : stop ≠ 32) (before after : Text) :
    indented (before ++ stop :: after) = indented before := by
  -- A unit that is no space ends the search for the two spaces.
  match before with
  | [] => cases after <;> simp [indented, solid]
  | [a] => simp [indented, solid]
  | a :: b :: rest => simp [indented]

/-- Indented text stays so, whatever follows. -/
theorem indented_append {before : Text} (spaces : indented before = true) (after : Text) :
    indented (before ++ after) = true := by
  match before with
  | [] | [_] => simp [indented] at spaces
  | a :: b :: rest => simpa [indented] using spaces

/-- There is always a first record. -/
theorem splitRecords_ne_nil (s : Text) : splitRecords s ≠ [] := by
  cases s with
  | nil => simp [splitRecords]
  | cons u rest =>
    rw [splitRecords]
    split
    · simp
    · split <;> simp

/-- An unbroken text up to a solid newline is the first record. -/
theorem splitRecords_cons {record : Text} (whole : unbroken record = true) {rest : Text}
    (solid : indented rest = false) :
    splitRecords (record ++ lf :: rest) = record :: splitRecords rest := by
  induction record with
  | nil => simp [splitRecords, solid]
  | cons u us ih =>
    simp only [unbroken, Bool.and_eq_true, Bool.or_eq_true, bne_iff_ne, ne_eq] at whole
    have stays : (u == lf && !indented (us ++ lf :: rest)) = false := by
      rcases whole.1 with other | spaces
      · simp [other]
      · simp [indented_append spaces]
    simp [splitRecords, stays, ih whole.2]

/-- A text without a splitting newline is one record. -/
theorem splitRecords_single {record : Text} (whole : unbroken record = true) :
    splitRecords record = [record] := by
  induction record with
  | nil => rfl
  | cons u us ih =>
    simp only [unbroken, Bool.and_eq_true, Bool.or_eq_true, bne_iff_ne, ne_eq] at whole
    have stays : (u == lf && !indented us) = false := by
      rcases whole.1 with other | spaces
      · simp [other]
      · simp [spaces]
    simp [splitRecords, stays, ih whole.2]

/-- The first record of indented text is indented. -/
private theorem indented_record {s record : Text} {others : List Text}
    (split : splitRecords s = record :: others) (spaces : indented s = true) :
    indented record = true := by
  -- Spaces never split, so the first two units stay at the head of the first record.
  match s with
  | [] | [_] => simp [indented] at spaces
  | a :: b :: rest =>
    simp only [indented, Bool.and_eq_true, beq_iff_eq] at spaces
    obtain ⟨rfl, rfl⟩ := spaces
    cases tail : splitRecords rest with
    | nil => exact absurd tail (splitRecords_ne_nil rest)
    | cons first more =>
      have shape : splitRecords (32 :: 32 :: rest) = (32 :: 32 :: first) :: more := by
        simp [splitRecords, tail, show ((32 : CodeUnit) == lf) = false by decide]
      rw [shape, List.cons.injEq] at split
      rw [← split.1]
      rfl

/-- No record contains a newline that would split it. -/
theorem unbroken_of_mem_splitRecords {s : Text} :
    ∀ record ∈ splitRecords s, unbroken record = true := by
  -- The induction is on the text, and a record is closed before a newline that does not indent.
  induction s with
  | nil => simp [splitRecords, unbroken]
  | cons u rest ih =>
    intro record member
    rw [splitRecords] at member
    split at member
    · rcases List.mem_cons.mp member with rfl | inside
      · rfl
      · exact ih record inside
    -- The unit joins the first record of the rest.
    · rename_i stays
      cases tail : splitRecords rest with
      | nil => exact absurd tail (splitRecords_ne_nil rest)
      | cons first more =>
        simp only [tail, List.mem_cons] at member ih
        rcases member with rfl | inside
        · have kept : u = lf → indented rest = true := by simpa using stays
          have whole := ih first (Or.inl rfl)
          -- A newline stays inside a record only before an indentation.
          by_cases newline : u = lf
          · simp [unbroken, whole, indented_record tail (kept newline)]
          · simp [unbroken, whole, newline]
        · exact ih record (Or.inr inside)

/-- Text without a newline starts no record. -/
theorem unbroken_of_no_newline {s : Text} (none : ∀ u ∈ s, u ≠ lf) : unbroken s = true := by
  induction s with
  | nil => rfl
  | cons u us ih =>
    simp [unbroken, none u (by simp), ih fun v member => none v (List.mem_cons_of_mem _ member)]

/-- Text that starts no record, behind such text, starts none. -/
theorem unbroken_append {before after : Text} (first : unbroken before = true)
    (second : unbroken after = true) : unbroken (before ++ after) = true := by
  induction before with
  | nil => exact second
  | cons u us ih =>
    simp only [unbroken, Bool.and_eq_true, Bool.or_eq_true, bne_iff_ne, ne_eq] at first
    have head : u ≠ lf ∨ indented (us ++ after) = true :=
      first.1.imp id fun spaces => indented_append spaces after
    simp [unbroken, head, ih first.2]

/-- The end of text that starts no record starts none. -/
theorem unbroken_suffix {before after : Text} (whole : unbroken (before ++ after) = true) :
    unbroken after = true := by
  induction before with
  | nil => exact whole
  | cons u us ih =>
    simp only [List.cons_append, unbroken, Bool.and_eq_true] at whole
    exact ih whole.2

/-- What stands before something solid starts no record if the whole starts none. -/
theorem unbroken_before_stop {stop : CodeUnit} (solid : stop ≠ 32) {before after : Text}
    (whole : unbroken (before ++ stop :: after) = true) : unbroken before = true := by
  induction before with
  | nil => rfl
  | cons u us ih =>
    simp only [List.cons_append, unbroken, indented_append_stop solid, Bool.and_eq_true] at whole ⊢
    exact ⟨whole.1, ih whole.2⟩

/-! ## What each escaper does to newlines -/

/-- Escaping quotes leaves the indentation. -/
private theorem indented_escapeQuotes (s : Text) : indented (escapeQuotes s) = indented s := by
  -- The quotation mark and the ampersand that replaces it are both no spaces.
  have one : ∀ t, indented (escapeQuotes (34 :: t)) = indented (34 :: t) := by
    intro t; cases t <;> simp [escapeQuotes, indented, lit, encodeChar]
  cases s with
  | nil => rfl
  | cons a rest =>
    by_cases quote : a = 34
    · subst quote; exact one rest
    · cases rest with
      | nil => simp [escapeQuotes, indented, quote]
      | cons b more =>
        by_cases second : b = 34
        · subst second; simp [escapeQuotes, indented, quote, lit, encodeChar]
        · simp [escapeQuotes, indented, quote, second]

/-- Escaping quotation marks neither adds nor removes a splitting newline. -/
theorem unbroken_escapeQuotes (s : Text) : unbroken (escapeQuotes s) = unbroken s := by
  induction s with
  | nil => rfl
  | cons u us ih =>
    have shape :
      escapeQuotes (u :: us) = (if u = 34 then lit "&quot;" else [u]) ++ escapeQuotes us := rfl
    by_cases quote : u = 34
    · subst quote
      rw [shape, if_pos rfl, show lit "&quot;" = [38, 113, 117, 111, 116, 59] by decide]
      repeat rw [List.cons_append, unbroken_cons (by decide)]
      rw [List.nil_append, ih, unbroken_cons (by decide)]
    · rw [shape, if_neg quote]
      simp only [List.singleton_append, unbroken, ih, indented_escapeQuotes]

/-- A label with its control characters replaced holds no newline. -/
theorem spaceControls_no_newline (s : Text) : ∀ u ∈ spaceControls s, u ≠ lf := by
  intro u member
  obtain ⟨v, -, rfl⟩ := List.mem_map.mp member
  split
  · decide
  · rename_i plain
    rintro rfl
    exact plain (by decide)

/-- Every newline of an indented body is followed by two spaces. -/
theorem unbroken_indentNewlines (s : Text) : unbroken (indentNewlines s) = true := by
  -- A newline followed by two spaces breaks no record.
  have step : ∀ t, unbroken t = true → unbroken (lf :: lit "  " ++ t) = true := by
    intro t whole
    rw [show lf :: lit "  " ++ t = lf :: 32 :: 32 :: t by rfl, unbroken_newline,
      unbroken_cons (by decide), unbroken_cons (by decide), whole]
    rfl
  -- The induction follows the replacement: a newline of either kind becomes an indented one.
  induction s using indentNewlines.induct with
  | case1 => rfl
  | case2 u newline => rw [indentNewlines, if_pos newline]; exact step [] rfl
  | case3 u other =>
    rw [indentNewlines, if_neg other, unbroken_cons fun same => other (Or.inr same)]
    rfl
  | case4 u v rest both ih => rw [indentNewlines, if_pos both]; exact step _ ih
  | case5 u v rest notBoth one ih =>
    rw [indentNewlines, if_neg notBoth, if_pos one]; exact step _ ih
  | case6 u v rest notBoth neither ih =>
    rw [indentNewlines, if_neg notBoth, if_neg neither, unbroken_cons fun same =>
      neither (Or.inr same)]
    exact ih

/-- A blank begins no tag. -/
private theorem neutraliseTags_space (rest : Text) :
    neutraliseTags (32 :: rest) = 32 :: neutraliseTags rest := by
  have opening : startsWithFold openTag (32 :: rest) = false :=
    startsWithFold_barrier (by decide) rest
  have closing : startsWithFold closeTag (32 :: rest) = false :=
    startsWithFold_barrier (by decide) rest
  simp [neutraliseTags, opening, closing]

/-- Neutralising tags keeps every newline and its indentation. -/
theorem unbroken_neutraliseTags {s : Text} (whole : unbroken s = true) :
    unbroken (neutraliseTags s) = true := by
  -- The induction is on the text: a unit that opens a tag becomes an entity.
  induction s with
  | nil => rfl
  | cons u rest ih =>
    simp only [unbroken, Bool.and_eq_true, Bool.or_eq_true, bne_iff_ne, ne_eq] at whole
    have tail := ih whole.2
    rw [neutraliseTags]
    split
    -- The entity has no newline.
    · rw [show lit "&lt;" = [38, 108, 116, 59] by decide]
      repeat rw [List.cons_append, unbroken_cons (by decide)]
      exact tail
    -- A newline that indents still does, since spaces are not replaced.
    · have head : u ≠ lf ∨ indented (neutraliseTags rest) = true := by
        refine whole.1.imp id fun spaces => ?_
        match rest with
        | [] | [_] => simp [indented] at spaces
        | a :: b :: more =>
          simp only [indented, Bool.and_eq_true, beq_iff_eq] at spaces
          obtain ⟨rfl, rfl⟩ := spaces
          simp [neutraliseTags_space, indented]
      simp [unbroken, head, tail]

/-! ## Lines put together -/

/-- Joined lines come back as they were when none splits and none looks like a continuation. -/
theorem splitRecords_joinLines {first : Text} {rest : List Text}
    (whole : ∀ line ∈ first :: rest, unbroken line = true)
    (solid : ∀ line ∈ rest, indented line = false) :
    splitRecords (joinLines (first :: rest)) = first :: rest := by
  induction rest generalizing first with
  | nil => exact splitRecords_single (whole first (by simp))
  | cons next others ih =>
    have tail := ih (fun line member => whole line (List.mem_cons_of_mem _ member))
      fun line member => solid line (List.mem_cons_of_mem _ member)
    have start : indented (joinLines (next :: others)) = false := by
      have head := solid next (by simp)
      cases others with
      | nil => exact head
      | cons _ _ => rwa [joinLines_cons _ (by simp), indented_append_stop (by decide)]
    rw [joinLines_cons _ (by simp), splitRecords_cons (whole first (by simp)) start, tail]

end Khala
