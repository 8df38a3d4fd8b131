import Khala.Agent.DeliverCore

/-! How often the frame's own tags occur in what each escaper returns. -/

namespace Khala

open Js

/-- A tag of the frame: an angle bracket and then only units that the frame never puts between its
parts. -/
structure FrameTag (tag : Text) : Prop where
  shape : ∃ tail, tag = 60 :: tail ∧ 60 ∉ tail
  stops : ∀ u ∈ ([32, 34, 38, 93, lf] : Text), Barrier tag u
  visible : ∀ u ∈ tag, isLineControl u = false

set_option maxRecDepth 4000 in
/-- The opening tag is a frame tag. -/
theorem openTag_frameTag : FrameTag openTag :=
  ⟨⟨openTag.drop 1, by decide⟩, forall_of_all (by decide), forall_of_all (by decide)⟩

set_option maxRecDepth 4000 in
/-- The closing tag is a frame tag. -/
theorem closeTag_frameTag : FrameTag closeTag :=
  ⟨⟨closeTag.drop 1, by decide⟩, forall_of_all (by decide), forall_of_all (by decide)⟩

/-- Only the angle bracket is one in lower case. -/
theorem asciiLower_eq_angle {u : CodeUnit} : asciiLower u = 60 ↔ u = 60 := by
  -- Lower-casing moves capital letters past the angle bracket, never onto it.
  constructor
  · intro same
    rw [asciiLower] at same
    split at same
    · rename_i capital
      have low : 65 ≤ u.toNat ∧ u.toNat ≤ 90 := capital
      have value : (u + 32).toNat = 60 := by rw [same]; rfl
      rw [UInt16.toNat_add] at value
      have small : (32 : UInt16).toNat = 32 := rfl
      omega
    · exact same
  · rintro rfl
    decide

/-- Control characters have no lower case. -/
theorem asciiLower_control {u : CodeUnit} (control : isLineControl u = true) :
    asciiLower u = u := by
  refine if_neg fun capital => ?_
  have low : 65 ≤ u.toNat ∧ u.toNat ≤ 90 := capital
  simp only [isLineControl, Bool.or_eq_true, Bool.and_eq_true, decide_eq_true_eq, beq_iff_eq,
    UInt16.lt_iff_toNat_lt, UInt16.le_iff_toNat_le, ← UInt16.toNat_inj, UInt16.reduceToNat]
      at control
  omega

section

variable {tag : Text} (isTag : FrameTag tag)
include isTag

/-- Text without an angle bracket holds no tag and can be dropped from the front. -/
theorem count_plain_append {before : Text} (plain : ∀ u ∈ before, u ≠ 60) (after : Text) :
    countFold tag (before ++ after) = countFold tag after := by
  obtain ⟨tail, rfl, -⟩ := isTag.shape
  exact countFold_append_of_absent (fun u member same =>
    plain u member (asciiLower_eq_angle.mp same)) after

/-- Text without an angle bracket holds no tag. -/
theorem count_plain {s : Text} (plain : ∀ u ∈ s, u ≠ 60) : countFold tag s = 0 := by
  obtain ⟨tail, rfl, -⟩ := isTag.shape
  exact countFold_eq_zero fun u member same => plain u member (asciiLower_eq_angle.mp same)

/-- Tags on the two sides of a separator add up. -/
theorem count_stop {stop : CodeUnit} (isStop : stop ∈ ([32, 34, 38, 93, lf] : Text))
    (before after : Text) :
    countFold tag (before ++ stop :: after) = countFold tag before + countFold tag after := by
  have barrier := isTag.stops stop isStop
  obtain ⟨tail, rfl, -⟩ := isTag.shape
  exact countFold_append_barrier barrier before after

/-- No tag starts with a stop. -/
theorem count_cons_stop {stop : CodeUnit} (isStop : stop ∈ ([32, 34, 38, 93, lf] : Text))
    (after : Text) : countFold tag (stop :: after) = countFold tag after := by
  have barrier := isTag.stops stop isStop
  obtain ⟨tail, rfl, -⟩ := isTag.shape
  exact countFold_cons_barrier barrier after

/-- Escaping quotation marks leaves every tag in place. -/
theorem count_escapeQuotes (s : Text) : countFold tag (escapeQuotes s) = countFold tag s := by
  have quote := isTag.stops 34 (by decide)
  have ampersand := isTag.stops 38 (by decide)
  obtain ⟨tail, rfl, -⟩ := isTag.shape
  refine countFold_flatMap (fun u => ?_) s
  by_cases same : u = 34
  · subst same
    refine Or.inr ⟨quote, 38, [113, 117, 111, 116, 59], by decide, ampersand, fun w member => ?_⟩
    exact fun angle => absurd (asciiLower_eq_angle.mp angle ▸ member) (by decide)
  · exact Or.inl (if_neg same)

/-- Replacing control characters by spaces leaves every tag in place. -/
theorem count_spaceControls (s : Text) : countFold tag (spaceControls s) = countFold tag s := by
  have space := isTag.stops 32 (by decide)
  have visible := isTag.visible
  obtain ⟨tail, rfl, -⟩ := isTag.shape
  rw [spaceControls, List.map_eq_flatMap]
  refine countFold_flatMap (fun u => ?_) s
  by_cases control : isLineControl u = true
  · refine Or.inr ⟨fun member => ?_, 32, [], by simp [control], space, by simp⟩
    rw [asciiLower_control control] at member
    simp [visible u member] at control
  · exact Or.inl (by simp [control])

omit isTag in
/-- A tag starts with an angle bracket. -/
theorem tagged_angle {u : CodeUnit} {rest : Text}
    (tagged : (startsWithFold openTag (u :: rest) || startsWithFold closeTag (u :: rest)) = true) :
    u = 60 := by
  -- Both tags begin with the angle bracket.
  obtain ⟨opening, openShape, -⟩ := openTag_frameTag.shape
  obtain ⟨closing, closeShape, -⟩ := closeTag_frameTag.shape
  rw [openShape, closeShape] at tagged
  simp only [startsWithFold, Bool.or_eq_true, Bool.and_eq_true, beq_iff_eq] at tagged
  exact asciiLower_eq_angle.mp (tagged.elim (·.1) (·.1))

omit isTag in
/-- Neutralising tags changes no match of text without angle brackets and ampersands. -/
theorem startsWithFold_neutraliseTags {part : Text} (noAngle : 60 ∉ part)
    (noAmpersand : 38 ∉ part) (s : Text) :
    startsWithFold part (neutraliseTags s) = startsWithFold part s := by
  -- The induction is on the part that is looked for.
  induction part generalizing s with
  | nil => simp
  | cons q qs ih =>
    cases s with
    | nil => rfl
    | cons u rest =>
      rw [neutraliseTags]
      split
      -- A tag opens with an angle bracket, whose replacement opens with an ampersand.
      · rename_i tagged
        have angle := tagged_angle tagged
        subst angle
        have left : (asciiLower 38 == q) = false :=
          beq_eq_false_iff_ne.mpr fun same => noAmpersand (same ▸ List.mem_cons_self)
        have right : (asciiLower 60 == q) = false :=
          beq_eq_false_iff_ne.mpr fun same => noAngle (same ▸ List.mem_cons_self)
        rw [show lit "&lt;" = [38, 108, 116, 59] by decide]
        simp only [List.cons_append, startsWithFold, left, right, Bool.false_and]
      -- Any other unit is kept, and the comparison goes on.
      · simp only [startsWithFold]
        rw [ih (fun member => noAngle (List.mem_cons_of_mem _ member))
          (fun member => noAmpersand (List.mem_cons_of_mem _ member))]

/-- A neutralised body holds no tag. -/
theorem count_neutraliseTags (known : tag = openTag ∨ tag = closeTag) (s : Text) :
    countFold tag (neutraliseTags s) = 0 := by
  have ampersand := isTag.stops 38 (by decide)
  obtain ⟨tail, shape, fresh⟩ := isTag.shape
  have noAmpersand : 38 ∉ tail := by
    intro member
    exact ampersand
      (by rw [shape, show asciiLower 38 = 38 by decide]; exact List.mem_cons_of_mem _ member)
  -- Where a tag starts its bracket is replaced; elsewhere the same units follow as before.
  induction s with
  | nil => rw [shape]; rfl
  | cons u rest ih =>
    rw [neutraliseTags]
    split
    · rw [count_plain_append isTag (forall_of_all (by decide)), ih]
    · rename_i untagged
      have start : startsWithFold tag (u :: rest) = false := by
        simp only [Bool.or_eq_true, not_or, Bool.not_eq_true] at untagged
        exact known.elim (· ▸ untagged.1) (· ▸ untagged.2)
      have same :
        startsWithFold tag (u :: neutraliseTags rest) = startsWithFold tag (u :: rest) := by
        rw [shape]
        simp only [startsWithFold, startsWithFold_neutraliseTags fresh noAmpersand]
      rw [countFold, same, start, ih]
      rfl

/-- Joined lines hold the tags of each line. -/
theorem count_joinLines (lines : List Text) :
    countFold tag (joinLines lines) = (lines.map (countFold tag)).sum := by
  induction lines with
  | nil => exact count_plain isTag (by simp [joinLines])
  | cons line rest ih =>
    cases rest with
    | nil => simp [joinLines]
    | cons next others =>
      rw [joinLines_cons _ (by simp), count_stop isTag (by decide), ih]
      rfl

end

end Khala
