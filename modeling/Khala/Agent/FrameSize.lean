import Khala.Agent.FrameSelection
import Khala.Agent.FrameTags

/-! The size of a frame grows with the body that it shows, however the body is escaped. -/

namespace Khala

open Js Decode

/-! ## What escaping does to a longer body -/

/-- A longer body is indented to a longer text. -/
theorem indentNewlines_append (before after : Text) :
    ∃ more, indentNewlines (before ++ after) = indentNewlines before ++ more := by
  induction before using indentNewlines.induct with
  | case1 => exact ⟨indentNewlines after, rfl⟩
  | case2 u newline =>
    -- A last carriage return takes a line feed with it, and both become one newline.
    cases after with
    | nil => exact ⟨[], (List.append_nil _).symm⟩
    | cons v rest =>
      simp only [List.singleton_append, indentNewlines]
      split
      · exact ⟨indentNewlines rest, by simp⟩
      · exact ⟨indentNewlines (v :: rest), by simp⟩
  | case3 u plain =>
    cases after with
    | nil => exact ⟨[], (List.append_nil _).symm⟩
    | cons v rest =>
      have notCr : ¬ (u = cr ∧ v = lf) := fun both => plain (.inl both.1)
      exact ⟨indentNewlines (v :: rest), by simp [indentNewlines, plain, notCr]⟩
  | case4 u v rest both ih =>
    obtain ⟨more, grown⟩ := ih
    exact ⟨more, by simp [indentNewlines, both, grown]⟩
  | case5 u v rest notBoth newline ih =>
    obtain ⟨more, grown⟩ := ih
    rw [List.cons_append] at grown
    exact ⟨more, by simp [indentNewlines, notBoth, newline, grown]⟩
  | case6 u v rest notBoth plain ih =>
    obtain ⟨more, grown⟩ := ih
    rw [List.cons_append] at grown
    exact ⟨more, by simp [indentNewlines, notBoth, plain, grown]⟩

/-- A space ends whatever newline comes before it. -/
theorem indentNewlines_append_space (before after : Text) :
    indentNewlines (before ++ 32 :: after) = indentNewlines before
      ++ 32 :: indentNewlines after := by
  -- A space is no part of a newline, so it separates the two texts.
  have notCr : ¬ (32 : CodeUnit) = cr := by decide
  have notLf : ¬ (32 : CodeUnit) = lf := by decide
  have space : indentNewlines (32 :: after) = 32 :: indentNewlines after := by
    cases after <;> simp [indentNewlines, notCr, notLf]
  -- The induction follows the replacement over the first text.
  induction before using indentNewlines.induct with
  | case1 => exact space
  | case2 u newline => simp [indentNewlines, newline, space, notLf]
  | case3 u plain => simp [indentNewlines, plain, space, notLf]
  | case4 u v rest both ih => simp [indentNewlines, both, ih]
  | case5 u v rest notBoth newline ih =>
    rw [List.cons_append] at ih
    simp [indentNewlines, notBoth, newline, ih]
  | case6 u v rest notBoth plain ih =>
    rw [List.cons_append] at ih
    simp [indentNewlines, notBoth, plain, ih]

/-- The text begins with one of the frame's tags. -/
def tagged (s : Text) : Bool := startsWithFold openTag s || startsWithFold closeTag s

/-- A unit is neutralised where a tag starts, and is kept elsewhere. -/
theorem neutraliseTags_cons (u : CodeUnit) (rest : Text) :
    neutraliseTags (u :: rest) = if tagged (u :: rest) then lit "&lt;" ++ neutraliseTags rest
      else u :: neutraliseTags rest :=
  rfl

/-- Text starts as its beginning does. -/
private theorem startsWithFold_append {part s : Text} (starts : startsWithFold part s = true)
    (after : Text) :
    startsWithFold part (s ++ after) = true := by
  induction part generalizing s with
  | nil => simp
  | cons p ps ih =>
    cases s with
    | nil => cases starts
    | cons u us =>
      simp only [startsWithFold, Bool.and_eq_true, List.cons_append] at starts ⊢
      exact ⟨starts.1, ih starts.2⟩

/-- A tag is still one when the text goes on. -/
theorem tagged_append {s : Text} (isTagged : tagged s = true) (after : Text) :
    tagged (s ++ after) = true := by
  simp only [tagged, Bool.or_eq_true] at isTagged ⊢
  exact isTagged.imp (fun starts => startsWithFold_append starts after) fun starts =>
    startsWithFold_append starts after

/-- A space neither ends nor begins a tag. -/
theorem neutraliseTags_append_space (before after : Text) :
    neutraliseTags (before ++ 32 :: after) = neutraliseTags before
      ++ 32 :: neutraliseTags after := by
  -- No tag contains a space, so none reaches over it.
  have opening : Barrier openTag 32 := openTag_frameTag.stops 32 (by decide)
  have closing : Barrier closeTag 32 := closeTag_frameTag.stops 32 (by decide)
  have stops : ∀ s, tagged (s ++ 32 :: after) = tagged s := fun s => by
    rw [tagged, tagged, startsWithFold_append_barrier opening,
      startsWithFold_append_barrier closing]
  -- What opens a tag in the first text does so whatever comes after the space.
  induction before with
  | nil =>
    have plain : tagged (32 :: after) = false := stops []
    rw [List.nil_append, neutraliseTags_cons, plain]
    rfl
  | cons u rest ih =>
    have same := stops (u :: rest)
    rw [List.cons_append] at same ⊢
    rw [neutraliseTags_cons, neutraliseTags_cons, same, ih]
    split <;> simp

/-- The escaped bracket and what follows it. -/
private theorem utf8Length_escaped (rest : Text) :
    utf8Length (lit "&lt;" ++ rest) = 4 + utf8Length rest := by
  have units : lit "&lt;" = [38, 108, 116, 59] := by decide
  rw [units]
  simp only [List.cons_append, List.nil_append]
  rw [utf8Length_cons_stop (by decide), utf8Length_cons_stop (by decide),
    utf8Length_cons_stop (by decide),
    utf8Length_cons_stop (by decide)]
  have one : pointSize [38] + (pointSize [108] + (pointSize [116] + pointSize [59]))
    = 4 := by decide
  omega

/-- A unit that makes no pair with the next makes none with what the next becomes. -/
private theorem utf8Length_unit {u v : CodeUnit} {rest : Text}
    (single : ¬ (0xD800 ≤ u ∧ u ≤ 0xDBFF ∧ 0xDC00 ≤ v ∧ v ≤ 0xDFFF)) :
    utf8Length (u :: neutraliseTags (v :: rest)) = pointSize [u] + utf8Length
      (neutraliseTags (v :: rest)) := by
  rw [neutraliseTags_cons]
  split
  · have units : lit "&lt;" ++ neutraliseTags rest = 38 :: (lit "lt;" ++ neutraliseTags rest) := by
      rw [show lit "&lt;" = 38 :: lit "lt;" by decide]
      rfl
    rw [units]
    exact utf8Length_cons_single fun pair => absurd pair.2.2.1 (by decide)
  · exact utf8Length_cons_single single

/-- Neutralising a longer text gives no smaller one. -/
theorem utf8Length_neutraliseTags_le (before after : Text) :
    utf8Length (neutraliseTags before) ≤ utf8Length (neutraliseTags (before ++ after)) := by
  -- The induction reads code points; a tag that is found stays found, and one more may be.
  induction before using codePoints.induct with
  | case1 => exact Nat.zero_le _
  | case2 u =>
    have alone : neutraliseTags [u] = [u] := by
      have short : tagged [u] = false := by
        have opening : openTag = 60 :: 107 :: openTag.drop 2 := by decide
        have closing : closeTag = 60 :: 47 :: closeTag.drop 2 := by decide
        rw [tagged, opening, closing]
        simp [startsWithFold]
      rw [neutraliseTags_cons, short]
      rfl
    have own : utf8Length [u] = pointSize [u] := by simp [utf8Length, codePoints]
    rw [alone, List.singleton_append, neutraliseTags_cons]
    split
    · have small := (pointSize_unit u).2
      rw [utf8Length_escaped, own]
      omega
    · exact utf8Length_le_append [u] _
  | case3 u v rest pair ih =>
    have high : ∀ s, tagged (u :: s) = false := fun s => by
      cases found : tagged (u :: s) with
      | false => rfl
      | true => exact absurd pair.1 (tagged_angle found ▸ by decide)
    have low : ∀ s, tagged (v :: s) = false := fun s => by
      cases found : tagged (v :: s) with
      | false => rfl
      | true => exact absurd pair.2.2.1 (tagged_angle found ▸ by decide)
    have kept : ∀ s, neutraliseTags (u :: v :: s) = u :: v :: neutraliseTags s := fun s => by
      rw [neutraliseTags_cons, high, neutraliseTags_cons, low]
      rfl
    rw [List.cons_append, List.cons_append, kept, kept, utf8Length_cons_pair pair,
      utf8Length_cons_pair pair]
    omega
  | case4 u v rest single ih =>
    rw [List.cons_append] at ih ⊢
    rw [neutraliseTags_cons, neutraliseTags_cons u]
    by_cases found : tagged (u :: v :: rest) = true
    · have still : tagged (u :: (v :: rest ++ after)) = true := tagged_append found after
      rw [if_pos found, if_pos still, utf8Length_escaped, utf8Length_escaped]
      simp only [List.cons_append] at ih ⊢
      omega
    · rw [if_neg found, utf8Length_unit single]
      simp only [List.cons_append] at ih ⊢
      have small := (pointSize_unit u).2
      split
      · rw [utf8Length_escaped]
        omega
      · rw [utf8Length_unit single]
        omega

/-- The size at which a body is shown. -/
def shownSize (body : Text) : Nat := utf8Length (neutraliseTags (indentNewlines body))

/-- A longer body is shown at no smaller size. -/
theorem shownSize_le (before after : Text) : shownSize before ≤ shownSize (before ++ after) := by
  obtain ⟨more, grown⟩ := indentNewlines_append before after
  unfold shownSize
  rw [grown]
  exact utf8Length_neutraliseTags_le _ more

/-- What follows a space is shown as it would be by itself. -/
theorem shownSize_append_space (before after : Text) :
    shownSize (before ++ 32 :: after) = shownSize before + 1 + shownSize after := by
  unfold shownSize
  rw [indentNewlines_append_space, neutraliseTags_append_space, utf8Length_append_stop (by decide)]
  rfl

/-! ## The frame of one entry -/

section

variable {dateParse : Text → Option Int}

/-- Only the end of an entry's line depends on its body. -/
theorem renderLine_body {entry : InboxEntry} {time : Int} (dated : dateParse entry.ts = some time) :
    ∃ start, ∀ body, renderLine dateParse { entry with body := body }
      = some (start ++ 32 :: neutraliseTags (indentNewlines body)) := by
  cases kind : entry.kind with
  | event =>
    refine ⟨lit "[" ++ dropMillis (toISOString time) ++ lit "] [khala event from "
      ++ spaceControls entry.senderLabel ++ lit "]", fun body => ?_⟩
    have bracket : lit "] " = lit "]" ++ [32] := by decide
    simp [renderLine, dated, bracket]
  | message =>
    refine ⟨lit "[" ++ dropMillis (toISOString time) ++ lit "] " ++ spaceControls entry.senderLabel
      ++ lit " (" ++ entry.senderKind.text ++ lit "):", fun body => ?_⟩
    have colon : lit "): " = lit "):" ++ [32] := by decide
    simp [renderLine, dated, colon]

/-- The frame of one entry takes a size of its own and that of the body. -/
theorem frameText_body {entry : InboxEntry} {time : Int} (dated : dateParse entry.ts = some time)
    (channel : Text) (you : Option Text) :
    ∃ base, ∀ body, ∃ text, frameText dateParse channel you [{ entry with body := body }] = .ok text
      ∧ utf8Length text = base + shownSize body := by
  obtain ⟨start, line⟩ := renderLine_body dated
  -- Everything before the body, and the closing line after it.
  let before := headerLine channel (shownName you) 1 ++ lf :: INTRO
    ++ (youLines (shownName you)).flatMap (lf :: ·) ++ lf :: start
  refine ⟨utf8Length before + 2 + utf8Length closingLine, fun body => ?_⟩
  let shown := neutraliseTags (indentNewlines body)
  refine ⟨before ++ 32 :: (shown ++ lf :: closingLine), ?_, ?_⟩
  · simp [frameText, renderFrame, line, joinLines, before, shown]
  · have outer := utf8Length_append_stop (u := 32) (by decide) before (shown ++ lf :: closingLine)
    have inner := utf8Length_append_stop (u := lf) (by decide) shown closingLine
    have space : pointSize [32] = 1 := by decide
    have newline : pointSize [lf] = 1 := by decide
    rw [outer, inner, space, newline]
    simp only [shownSize, shown]
    omega

/-- The places at which an entry can be cut are those up to the last one, in the order of the
bodies. -/
theorem cutFits_initial {entry : InboxEntry} {time : Int} (dated : dateParse entry.ts = some time)
    (channel : Text) (you : Option Text) (budget : Int) :
    ∃ size : Nat → Nat, (∀ j k, j ≤ k → size j ≤ size k)
      ∧ ∀ k, ∃ text, frameText dateParse channel you [cutEntry TRUNCATED entry k] = .ok text
        ∧ utf8Length text = size k
        ∧ cutFits (frameText dateParse channel you) TRUNCATED budget entry k
          = pure (decide ((size k : Int) ≤ budget)) := by
  -- The size is one of its own and that of the body shown.
  obtain ⟨base, sizes⟩ := frameText_body dated channel you
  let body := fun k => ((codePoints entry.body).take k).flatten ++ TRUNCATED
  refine ⟨fun k => base + shownSize (body k), fun j k ordered => ?_, fun k => ?_⟩
  · -- The suffix opens with a space, so that only what is before it makes the difference.
    have suffix : TRUNCATED = 32 :: TRUNCATED.drop 1 := by decide
    have longer :
      ((codePoints entry.body).take k).flatten = ((codePoints entry.body).take j).flatten
        ++ (((codePoints entry.body).take k).drop j).flatten := by
      have front : ((codePoints entry.body).take k).take j = (codePoints entry.body).take j := by
        rw [List.take_take, Nat.min_eq_left ordered]
      rw [← List.flatten_append, ← front, List.take_append_drop]
    have grows :=
      shownSize_le ((codePoints entry.body).take j).flatten
      (((codePoints entry.body).take k).drop j).flatten
    rw [← longer] at grows
    simp only [body]
    rw [suffix, shownSize_append_space, shownSize_append_space]
    omega
  -- A cut entry is the entry with another body.
  · obtain ⟨text, rendered, size⟩ := sizes (body k)
    have cut : frameText dateParse channel you [cutEntry TRUNCATED entry k] = .ok text := rendered
    refine ⟨text, cut, size, ?_⟩
    rw [cutFits, cut]
    simp only [← size]
    rfl

end

end Khala
