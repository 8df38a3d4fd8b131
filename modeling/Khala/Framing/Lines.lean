import Mathlib.Data.List.Forall2
import Mathlib.Data.List.Infix

/-! Lines read from the pieces of a text, with a limit on what is kept of a line whose end has not
come. -/

namespace Framing

section

variable {α : Type} [DecidableEq α] (stop : α)

/-- The lines that end in a text, without their ends, and what follows the last of them; `kept` is
what came before the text. -/
def cutFrom (kept : List α) : List α → List (List α) × List α
  | [] => ([], kept)
  | x :: rest =>
    if x = stop then (kept :: (cutFrom [] rest).1, (cutFrom [] rest).2)
    else cutFrom (kept ++ [x]) rest

def lines (text : List α) : List (List α) := (cutFrom stop [] text).1

def unended (text : List α) : List α := (cutFrom stop [] text).2

variable {stop}

/-- Cutting text in two goes on where the first part ended. -/
theorem cutFrom_append (kept one two : List α) : cutFrom stop kept (one ++ two) =
    ((cutFrom stop kept one).1 ++ (cutFrom stop (cutFrom stop kept one).2 two).1,
      (cutFrom stop (cutFrom stop kept one).2 two).2) := by
  induction one generalizing kept with
  | nil => rfl
  | cons x rest ih =>
    rw [List.cons_append, cutFrom, cutFrom]
    split
    · simp only [ih, List.cons_append]
    · exact ih _

/-- What has no end of a line in it is only kept. -/
theorem cutFrom_kept (kept : List α) {part : List α} (open_ : stop ∉ part) :
    cutFrom stop kept part = ([], kept ++ part) := by
  induction part generalizing kept with
  | nil => rw [List.append_nil]; rfl
  | cons x rest ih =>
    obtain ⟨other, open_⟩ := not_or.mp (mt List.mem_cons.mpr open_)
    rw [cutFrom, if_neg (Ne.symm other), ih _ open_, List.append_assoc, List.singleton_append]

/-- What is left over has no stop. -/
theorem cutFrom_open {kept : List α} (open_ : stop ∉ kept) (text : List α) :
    stop ∉ (cutFrom stop kept text).2 := by
  induction text generalizing kept with
  | nil => exact open_
  | cons x rest ih =>
    rw [cutFrom]
    split
    · exact ih List.not_mem_nil
    · rename_i other
      exact ih (by simp [open_, Ne.symm other])

/-- The last line has no stop. -/
theorem unended_open (text : List α) : stop ∉ unended stop text :=
  cutFrom_open List.not_mem_nil text

/-- What has not ended is read again together with what comes next. -/
theorem cutFrom_unended (text more : List α) :
    cutFrom stop (unended stop text) more = cutFrom stop [] (unended stop text ++ more) := by
  rw [cutFrom_append, cutFrom_kept [] (unended_open text)]
  simp

/-- The lines of text are those of its beginning, and those from the last of them on. -/
theorem lines_append (text more : List α) :
    lines stop (text ++ more) = lines stop text ++ lines stop (unended stop text ++ more) := by
  rw [lines, cutFrom_append, lines, lines, ← cutFrom_unended]
  rfl

/-- What is left over is left over of the last line and the rest. -/
theorem unended_append (text more : List α) :
    unended stop (text ++ more) = unended stop (unended stop text ++ more) := by
  rw [unended, cutFrom_append, unended, ← cutFrom_unended]
  rfl

/-- Text without a stop has no complete line. -/
theorem lines_of_open {part : List α} (open_ : stop ∉ part) : lines stop part = [] := by
  rw [lines, cutFrom_kept [] open_]

/-- Text without a stop is left over. -/
theorem unended_of_open {part : List α} (open_ : stop ∉ part) : unended stop part = part := by
  rw [unended, cutFrom_kept [] open_, List.nil_append]

/-- The first line, and the rest of the text. -/
theorem lines_cons {part : List α} (open_ : stop ∉ part) (rest : List α) :
    lines stop (part ++ stop :: rest) = part :: lines stop rest := by
  rw [lines_append, lines_of_open open_, unended_of_open open_, List.nil_append, lines,
    cutFrom_append, cutFrom_kept [] open_]
  simp [cutFrom, lines]

/-- Behind a stop another line begins. -/
theorem unended_cons {part : List α} (open_ : stop ∉ part) (rest : List α) :
    unended stop (part ++ stop :: rest) = unended stop rest := by
  rw [unended, cutFrom_append, cutFrom_kept [] open_]
  simp [cutFrom, unended]

/-- Lines written one after another, each with its end, are the lines that are read. -/
theorem lines_written {parts : List (List α)} (open_ : ∀ part ∈ parts, stop ∉ part) :
    lines stop (parts.flatMap fun part => part ++ [stop]) = parts
      ∧ unended stop (parts.flatMap fun part => part ++ [stop]) = [] := by
  induction parts with
  | nil => exact ⟨rfl, rfl⟩
  | cons part rest ih =>
    obtain ⟨first, others⟩ := List.forall_mem_cons.mp open_
    obtain ⟨read, nothing⟩ := ih others
    rw [List.flatMap_cons, List.append_assoc, List.singleton_append, lines_cons first,
      unended_cons first, read, nothing]
    exact ⟨rfl, rfl⟩

/-- What precedes the first end of a line, where there is one. -/
theorem exists_first_end {text : List α} (ends : stop ∈ text) :
    ∃ part rest, text = part ++ stop :: rest ∧ stop ∉ part
      ∧ text.dropWhile (· ≠ stop) = stop :: rest := by
  induction text with
  | nil => cases ends
  | cons x rest ih =>
    by_cases first : x = stop
    · subst first
      exact ⟨[], rest, rfl, List.not_mem_nil, by simp⟩
    · obtain ⟨part, after, rfl, open_, dropped⟩ :=
        ih ((List.mem_cons.mp ends).resolve_left (Ne.symm first))
      exact ⟨x :: part, after, rfl, by simp [open_, Ne.symm first], by
        rw [List.dropWhile_cons_of_pos (by simpa using first), dropped]⟩

/-- Without a stop nothing is left to drop. -/
theorem dropWhile_of_open {text : List α} (open_ : stop ∉ text) :
    text.dropWhile (· ≠ stop) = [] := by
  induction text with
  | nil => rfl
  | cons x rest ih =>
    obtain ⟨other, open_⟩ := not_or.mp (mt List.mem_cons.mpr open_)
    rw [List.dropWhile_cons_of_pos (by simpa using Ne.symm other), ih open_]

end

/-! ## A limit on what is kept -/

/-- What a reader hands on: a line that has ended, or word that one was given up. -/
inductive Taken (α : Type)
  | line (text : List α)
  | refused
deriving DecidableEq

/-- What is kept of the line whose end has not come, and whether its rest is dropped. -/
structure LineBuffer (α : Type) where
  buffered : List α
  discarding : Bool

section

variable {α : Type} [DecidableEq α] (stop : α) (size : List α → Nat) (limit : Nat)

def LineBuffer.start : LineBuffer α := ⟨[], false⟩

/-- The lines of what is buffered are handed on; what is left over is given up when there is too
much of it. -/
def LineBuffer.cut (buffered : List α) : List (Taken α) × LineBuffer α :=
  let handed := (lines stop buffered).map .line
  if limit < size (unended stop buffered) then (handed ++ [Taken.refused], ⟨[], true⟩)
    else (handed, ⟨unended stop buffered, false⟩)

def LineBuffer.feed (buffer : LineBuffer α) (piece : List α) : List (Taken α) × LineBuffer α :=
  if buffer.discarding then
    match piece.dropWhile (· ≠ stop) with
    | [] => ([], buffer)
    | _ :: rest => LineBuffer.cut stop size limit (buffer.buffered ++ rest)
  else LineBuffer.cut stop size limit (buffer.buffered ++ piece)

def LineBuffer.feedAll (buffer : LineBuffer α) : List (List α) → List (Taken α) × LineBuffer α
  | [] => ([], buffer)
  | piece :: rest =>
    let now := buffer.feed stop size limit piece
    let later := feedAll now.2 rest
    (now.1 ++ later.1, later.2)

/-- What a line is handed on as: itself, or, where it is too long, word that it was given up. -/
def Seen (line : List α) (taken : Taken α) : Prop :=
  taken = .line line ∨ (taken = .refused ∧ limit < size line)

/-- What has been handed on of a text and what is kept of it. -/
structure Reads (text : List α) (taken : List (Taken α)) (buffer : LineBuffer α) : Prop where
  seen : ∃ ended, List.Forall₂ (Seen size limit) (lines stop text) ended
    ∧ taken = ended ++ if buffer.discarding then [.refused] else []
  buffered : buffer.buffered = if buffer.discarding then [] else unended stop text
  refused : buffer.discarding = true ↔ limit < size (unended stop text)

variable {stop size limit}

omit [DecidableEq α] in
/-- Each line is seen as it is. -/
theorem seen_lines (texts : List (List α)) :
    List.Forall₂ (Seen size limit) texts (texts.map .line) := by
  rw [List.forall₂_map_right_iff]
  exact List.forall₂_same.mpr fun _ _ => .inl rfl

/-- Cutting what is buffered goes on from the lines that came before it. -/
theorem Reads.of_cut {text more : List α} {ended : List (Taken α)} {former : List (List α)}
    (split : lines stop text = former ++ lines stop more)
    (rest : unended stop text = unended stop more)
    (seen : List.Forall₂ (Seen size limit) former ended) :
    Reads stop size limit text (ended ++ (LineBuffer.cut stop size limit more).1)
      (LineBuffer.cut stop size limit more).2 := by
  have all : List.Forall₂ (Seen size limit) (lines stop text)
    (ended ++ (lines stop more).map .line) := by
    rw [split]
    exact List.rel_append seen (seen_lines _)
  unfold LineBuffer.cut
  split
  · rename_i past
    exact ⟨⟨_, all, by simp⟩, rfl, by simpa [rest] using past⟩
  · rename_i under
    exact ⟨⟨_, all, by simp⟩, by simp [rest], by simpa [rest] using under⟩

variable (mono : ∀ before after : List α, size before ≤ size (before ++ after))

include mono in
/-- A piece that is fed is read. -/
theorem Reads.feed {text : List α} {taken : List (Taken α)} {buffer : LineBuffer α}
    (reads : Reads stop size limit text taken buffer) (piece : List α) :
    Reads stop size limit (text ++ piece) (taken ++ (buffer.feed stop size limit piece).1)
      (buffer.feed stop size limit piece).2 := by
  obtain ⟨ended, seen, handed⟩ := reads.seen
  unfold LineBuffer.feed
  -- A line that was given up is skipped up to its end; otherwise the piece joins the buffer.
  cases discards : buffer.discarding with
  | false =>
    simp only [discards, Bool.false_eq_true, if_false] at handed reads
    have buffered := reads.buffered
    simp only [discards, Bool.false_eq_true, if_false] at buffered
    rw [if_neg Bool.false_ne_true, handed, List.append_nil, buffered]
    exact Reads.of_cut (lines_append text piece) (unended_append text piece) seen
  | true =>
    have past := reads.refused.mp discards
    have buffered := reads.buffered
    simp only [discards, if_true] at handed buffered
    rw [if_pos rfl]
    by_cases ends : stop ∈ piece
    · -- The line that was given up ends here; it is longer than what was refused of it.
      obtain ⟨part, rest, rfl, open_, dropped⟩ := exists_first_end ends
      have whole : stop ∉ unended stop text ++ part := by simp [unended_open, open_]
      rw [dropped]
      dsimp only
      rw [handed, buffered, List.nil_append]
      have former : List.Forall₂ (Seen size limit) (lines stop text ++ [unended stop text ++ part])
        (ended ++ [Taken.refused]) :=
        List.rel_append seen (.cons (.inr ⟨rfl, Nat.lt_of_lt_of_le past (mono _ _)⟩) .nil)
      refine Reads.of_cut ?_ ?_ former
      · rw [lines_append, ← List.append_assoc, lines_cons whole, List.append_assoc,
          List.singleton_append]
      · rw [unended_append, ← List.append_assoc, unended_cons whole]
    -- The line does not end in this piece, so all of it is skipped.
    · have whole : stop ∉ unended stop text ++ piece := by simp [unended_open, ends]
      have rest :
        unended stop (text ++ piece) = unended stop text
        ++ piece := by rw [unended_append, unended_of_open whole]
      rw [dropWhile_of_open ends]
      -- No line is complete with it, and the open one is still too long.
      refine ⟨⟨ended, ?_, ?_⟩, ?_, ?_⟩
      · rw [lines_append, lines_of_open whole, List.append_nil]
        exact seen
      · simpa [discards] using handed
      · simpa [discards] using buffered
      · rw [rest]
        exact ⟨fun _ => Nat.lt_of_lt_of_le past (mono _ _), fun _ => discards⟩

/-- At first nothing is read. -/
theorem Reads.start (under : size [] ≤ limit) : Reads stop size limit [] [] LineBuffer.start :=
  ⟨⟨[], .nil, rfl⟩, rfl, by simpa [LineBuffer.start, unended, cutFrom] using under⟩

include mono in
/-- All pieces that are fed are read. -/
theorem Reads.feedAll {text : List α} {taken : List (Taken α)} {buffer : LineBuffer α}
    (reads : Reads stop size limit text taken buffer) (pieces : List (List α)) :
    Reads stop size limit (text ++ pieces.flatten)
      (taken ++ (buffer.feedAll stop size limit pieces).1)
      (buffer.feedAll stop size limit pieces).2 := by
  induction pieces generalizing text taken buffer with
  | nil => simpa [LineBuffer.feedAll] using reads
  | cons piece rest ih =>
    have later := ih (reads.feed mono piece)
    rw [List.append_assoc, List.append_assoc] at later
    rw [List.flatten_cons]
    exact later

end

end Framing
