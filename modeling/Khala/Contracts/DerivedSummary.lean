import Khala.Contracts.EventCodec

/-! The summaries that are derived from payloads: they can be shown on one line as far as the
payload's key can, and the event with such a summary is never too large. -/

namespace Khala.Event

open Js Decode

/-! ## Sizes of lines -/

/-- A text has no more code points than bytes. -/
theorem length_codePoints_le (s : Text) : (codePoints s).length ≤ utf8Length s := by
  rw [utf8Length]
  -- Each point takes one byte at least.
  induction codePoints s with
  | nil => exact Nat.le_refl 0
  | cons point rest ih =>
    have some_ : 1 ≤ pointSize point := by
      cases point with
      | nil => decide
      | cons u rest =>
        cases rest with
        | nil => exact (pointSize_unit u).1
        | cons v more => exact Nat.le_add_left 1 3
    rw [List.map_cons, List.sum_cons, List.length_cons]
    omega

/-- Without control characters, every code point is written in at most four bytes. -/
private theorem utf8Length_escape {s : Text} (paired : Paired s) (plain : s.any isControl = false) :
    utf8Length ((codePoints s).flatMap escapePoint) ≤ 4 * (codePoints s).length := by
  induction paired with
  | nil => exact Nat.le_refl 0
  | @unit u rest single others ih =>
    rw [List.any_cons, Bool.or_eq_false_iff] at plain
    have rest := ih plain.2
    have own : utf8Length (escapePoint [u]) ≤ 4 ∧ Paired (escapePoint [u]) := by
      have small := (pointSize_unit u).2
      have short : utf8Length [92, 34] ≤ 4 ∧ utf8Length [92, 92] ≤ 4 := by decide
      by_cases mark : u = 34
      · rw [escapePoint, if_pos mark]
        exact ⟨short.1, .of_units (forall_of_all (by decide))⟩
      by_cases slash : u = 92
      · rw [escapePoint, if_neg mark, if_pos slash]
        exact ⟨short.2, .of_units (forall_of_all (by decide))⟩
      -- The other units that are escaped are control characters or halves of pairs.
      have low : ¬ u ≤ 31 := fun low => by
        have control : isControl u = true := by simp [isControl, low]
        rw [plain.1] at control
        cases control
      have units : u ≠ 8 ∧ u ≠ 12 ∧ u ≠ 10 ∧ u ≠ 13 ∧ u ≠ 9 := by
        refine ⟨?_, ?_, ?_, ?_, ?_⟩
        all_goals
          rintro rfl
          exact low (by decide)
      have whole : ¬ (u < 32 ∨ isSurrogate u = true) := by
        rintro (small | half)
        · simp only [UInt16.le_iff_toNat_le, UInt16.lt_iff_toNat_lt, UInt16.toNat_ofNat]
            at low small
          omega
        · rw [single] at half
          cases half
      rw [escapePoint, if_neg mark, if_neg slash, if_neg units.1, if_neg units.2.1,
        if_neg units.2.2.1, if_neg units.2.2.2.1,
        if_neg units.2.2.2.2, if_neg whole]
      have alone : utf8Length [u] = pointSize [u] := by simp [utf8Length, codePoints]
      exact ⟨by omega, .unit single .nil⟩
    rw [codePoints_cons single, List.flatMap_cons, utf8Length_append own.2, List.length_cons]
    omega
  | @pair u v rest high low others ih =>
    simp only [List.any_cons, Bool.or_eq_false_iff] at plain
    have rest := ih plain.2.2
    have both : 0xD800 ≤ u ∧ u ≤ 0xDBFF ∧ 0xDC00 ≤ v ∧ v ≤ 0xDFFF := ⟨high.1, high.2, low.1, low.2⟩
    have four : utf8Length [u, v] = 4 := by simp [utf8Length, codePoints, both, pointSize]
    rw [codePoints, if_pos both, List.flatMap_cons, escapePoint,
      utf8Length_append (.pair high low .nil), List.length_cons, four]
    · omega
    · exact fun _ same => by cases same

/-- A line in quotation marks takes at most four bytes for each code point. -/
theorem size_line {n : Nat} {s : Text} (line : Line n s) : size (.string s) ≤ 2 + 4 * n := by
  have mark : pointSize [34] = 1 := by decide
  have escaped := utf8Length_escape (paired_of_isWellFormed line.formed) line.plain
  have points := line.points
  rw [size, stringify, quote, List.cons_append, utf8Length_cons_stop (by decide),
    utf8Length_append_stop (by decide), utf8Length_nil]
  omega

/-! ## Payloads that can be shown -/

/-- The bytes that a field of a payload takes at most. -/
def roomOf (key : Text) : Nat :=
  if key = lit "reason" ∨ key = lit "value" then 802 else if key = lit "key" then 514 else 258

/-- A field that can be shown on one line. -/
inductive Showable (key : Text) : Json → Prop
  | text {s : Text} {n : Nat} (line : Line n s) (fits : 2 + 4 * n ≤ roomOf key) :
  Showable key (.string s)
  | number {n : Nat} (safe : n ≤ maxSafeInteger) : Showable key (.number (natNumber n))

/-- Every field has room for a text of 64 code points. -/
theorem roomOf_ge (key : Text) : 258 ≤ roomOf key := by
  unfold roomOf
  split
  · decide
  · split <;> decide

/-- What can be shown has room. -/
theorem Showable.size_le {key : Text} {value : Json} (showable : Showable key value) :
    size value ≤ roomOf key := by
  cases showable with
  | text line fits => exact Nat.le_trans (size_line line) fits
  | @number n safe =>
    have small : size (.number (natNumber n)) ≤ 4 * 16 := (line_decimal safe).fits
    have room := roomOf_ge key
    omega

/-- A text that is read for display can be shown. -/
private theorem showable_display {maxBytes maxPoints : Nat} {input value : Json} {path key : Text}
    (fits : 2 + 4 * maxPoints ≤ roomOf key)
    (read : Json.string <$> display input path maxBytes maxPoints = .ok value) :
    Showable key value := by
  obtain ⟨s, isShown, rfl⟩ := map_ok read
  obtain ⟨-, shown⟩ := display_ok isShown
  exact .text ⟨shown.formed, shown.plain, shown.visible, shown.points⟩ fits

/-- Every field that was read can be shown, apart from keys with units that cannot be seen. -/
theorem readDatum_showable {input value : Json} {path key : Text}
    (read : readDatum input path key = .ok value)
    (visible : key = lit "key" → ∀ s, value = .string s → s.any isInvisible = false) :
    Showable key value := by
  unfold readDatum at read
  -- By the field: each is read in its own way.
  split at read
  · obtain ⟨pr, isPr, rfl⟩ := map_ok read
    exact .number (readPr_ok isPr).2.1
  split at read
  -- A verdict is one of two fixed texts.
  · rename_i isVerdict
    cases input with
    | string t =>
      simp only [literal] at read
      split at read
      · rename_i read' found
        obtain rfl := Except.ok.inj read
        obtain ⟨before, after, entries, -⟩ := List.lookup_eq_some_iff.mp found
        have inside : (t, read') ∈ [(lit "approved", Json.string (lit "approved")),
            (lit "changes_requested", .string (lit "changes_requested"))] :=
          entries ▸ List.mem_append_right before List.mem_cons_self
        have room := roomOf_ge key
        rcases List.mem_cons.mp inside with one | two
        · cases one
          exact .text (.of_isLine (show isLine 17 (lit "approved") = true by decide)) (by omega)
        · cases List.mem_singleton.mp two
          exact .text (.of_isLine (show isLine 17 (lit "changes_requested") = true by decide))
            (by omega)
      · cases read
    | _ => cases read
  split at read
  · rename_i isReason
    exact showable_display (by rw [isReason]; decide) read
  split at read
  -- A key has to be visible.
  · rename_i isKey
    obtain ⟨s, isText, rfl⟩ := map_ok read
    obtain ⟨-, label, -⟩ := readNonempty_ok isText
    exact .text ⟨label.formed, label.plain, visible isKey s rfl,
      Nat.le_trans (length_codePoints_le s) label.fits⟩
      (by rw [isKey]; decide)
  split at read
  -- A value may be empty, and is shown like any text otherwise.
  · rename_i isValue
    split at read
    · obtain rfl := Except.ok.inj read
      have room := roomOf_ge key
      exact .text (.of_isLine (show isLine 0 [] = true by decide)) (by omega)
    · exact showable_display (by rw [isValue]; decide) read
  · exact showable_display (roomOf_ge key) read

/-- A payload whose fields can all be shown. -/
def ShowableData (data : Members) : Prop :=
  ∀ key value, (key, value) ∈ data → Showable key value

/-- A field that is found is a member. -/
theorem mem_of_found {members : Members} {key : Text} {value : Json}
    (found : lookup members key = some value) :
    (key, value) ∈ members := by
  obtain ⟨member, there, rfl⟩ := Option.map_eq_some_iff.mp found
  have same : member.1 = key := by simpa using List.find?_some there
  exact same ▸ List.mem_of_find?_eq_some there

/-- What is shown of a field is a line. -/
theorem ShowableData.line_shown {data : Members} (showable : ShowableData data) (key : String) :
    ∃ n, Line n (shown data key) := by
  cases found : lookup data (lit key) with
  | none =>
    refine ⟨0, ?_⟩
    rw [shown, found]
    exact .of_isLine (by decide)
  | some value =>
    have inside := mem_of_found found
    rw [shown, found]
    cases showable _ _ inside with
    | @text s n line _ => exact ⟨n, line⟩
    | number safe => exact ⟨16, line_decimal safe⟩

/-- What a payload of a kind takes at most. -/
theorem ShowableData.size_le {kind : Text} {data : Members} (showable : ShowableData data)
    (keys : data.map (·.1) = dataFields kind) (coordinates : kind ∈ coordinationKinds) :
    size (.object data) ≤ 1878 := by
  -- The bound is computed for each kind.
  have total : ∀ kind ∈ coordinationKinds,
    1 + ((dataFields kind).map fun key => utf8Length (quote key) + 1 + roomOf key + 1).sum ≤ 1878
      ∧ dataFields kind ≠ [] := by decide
  obtain ⟨bound, some_⟩ := total kind coordinates
  have nonempty : data ≠ [] := by
    rintro rfl
    exact some_ keys.symm
  -- Each member takes its name and what its field has room for.
  have each : (data.map fun member => memberSize member + 1).sum
      ≤ (data.map fun member => utf8Length (quote member.1) + 1 + roomOf member.1 + 1).sum := by
    refine List.sum_le_sum fun member inside => ?_
    have room := (showable member.1 member.2 inside).size_le
    rw [size] at room
    rw [memberSize]
    omega
  rw [← keys, List.map_map] at bound
  rw [size, utf8Length_object nonempty]
  exact Nat.le_trans (Nat.add_le_add_left each 1) bound

/-! ## Summaries -/

/-- Two lines joined are a line. -/
private theorem join {s t : Text} (first : ∃ n, Line n s) (second : ∃ n, Line n t) :
    ∃ n, Line n (s ++ t) :=
  let ⟨_, line⟩ := first
  let ⟨_, line'⟩ := second
  ⟨_, line.append line'⟩

/-- A literal that is a line is one of its own length. -/
private theorem literal_line {s : Text} (line : isLine s.length s = true) : ∃ n, Line n s :=
  ⟨_, .of_isLine line⟩

/-- What is derived from a payload that can be shown is a line, and shows something. -/
theorem coordinationSummary_line {data : Members} (showable : ShowableData data) (kind : Text) :
    (∃ n, Line n (coordinationSummary kind data)) ∧ Shows (coordinationSummary kind data) := by
  have piece := showable.line_shown
  have starts : ∀ {s : Text}, (s.any fun u => !isWhite u) = true → ∀ t, Shows (s ++ t) :=
    fun any t => (Shows.of_any any).append_left t
  -- By the kind: a line of fixed texts and the shown fields between them.
  unfold coordinationSummary
  simp only [List.append_assoc]
  split
  · exact ⟨join (literal_line (by decide))
      (join (piece _)
        (join (literal_line (by decide)) (join (piece _) (join (literal_line (by decide))
      (join (piece _)
        (join (literal_line (by decide))
          (join (piece _) (join (literal_line (by decide)) (piece _))))))))),
      starts (by decide) _⟩
  split
  · exact ⟨join (literal_line (by decide)) (join (piece _) (literal_line (by decide))),
      starts (by decide) _⟩
  split
  · have verdict : ∃ n, Line n (if shown data "verdict" = lit "approved" then lit "approved"
      else lit "changes requested") := by
      split <;> exact literal_line (by decide)
    exact ⟨join (literal_line (by decide))
      (join (piece _) (join (literal_line (by decide)) (join verdict
      (join (literal_line (by decide)) (piece _))))), starts (by decide) _⟩
  split
  · exact ⟨join (literal_line (by decide)) (piece _), starts (by decide) _⟩
  split
  · exact ⟨join (literal_line (by decide)) (piece _), starts (by decide) _⟩
  split
  · exact ⟨join (literal_line (by decide)) (join (piece _) (literal_line (by decide))),
      starts (by decide) _⟩
  · exact ⟨join (literal_line (by decide))
      (join (piece _) (join (literal_line (by decide)) (piece _))), starts (by decide) _⟩

/-- A line that is cut has at most two hundred code points. -/
theorem shortened_line {n : Nat} {s : Text} (line : Line n s) (shows_ : Shows s) :
    Line 200 (shortened s) ∧ Shows (shortened s) := by
  unfold shortened
  split
  · have dots : Line 1 (lit "…") := .of_isLine (by decide)
    exact ⟨(line.take 199).append dots, (Shows.of_any (by decide)).append_right _⟩
  · rename_i short
    exact ⟨⟨line.formed, line.plain, line.visible, Nat.not_lt.mp short⟩, shows_⟩

/-- Cutting leaves the first code points. -/
theorem prefix_shortened {before : Text} (paired : Paired before)
    (short : (codePoints before).length ≤ 199) (after : Text) :
    before <+: shortened (before ++ after) := by
  unfold shortened
  split
  · rw [codePoints_append paired, List.take_append, List.take_of_length_le short,
      List.flatten_append, flatten_codePoints,
      List.append_assoc]
    exact List.prefix_append _ _
  · exact List.prefix_append _ _

end Khala.Event
