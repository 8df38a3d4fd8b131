import Khala.Contracts.TextSize
import Khala.Framing.Lines

/-! The frames of the tool server: the lines of what it reads, however its input is cut into chunks.
-/

namespace Khala.Mcp

open Js Framing Decode

def maxFrameBytes : Nat := 81920

/-- What the loop hands on: a line, or the refusal of one that is too long. -/
inductive Frame
  | line (text : Text)
  | oversized
deriving DecidableEq

/-- `replace(/\r$/, '')`. -/
def dropReturn (line : Text) : Text := if line.getLast? = some cr then line.dropLast else line

/-- A blank line is passed over. -/
def frameOf : Taken CodeUnit → List Frame
  | .line line =>
    if maxFrameBytes < utf8Length (dropReturn line) then [.oversized]
    else if (trim (dropReturn line)).isEmpty then []
    else [.line (dropReturn line)]
  | .refused => [.oversized]

/-- The decoder, and what is buffered of the text that it has decoded. -/
structure Reader where
  decoder : Utf8State
  buffer : LineBuffer CodeUnit

namespace Reader

def start : Reader := ⟨.start, .start⟩

/-- One turn of the loop over the chunks. Nothing changes what is buffered while the lines of a
chunk are served, so its frames are cut before the first of them is. -/
def read (reader : Reader) (chunk : List UInt8) : List Frame × Reader :=
  let (text, decoder) := reader.decoder.run chunk
  let (taken, buffer) := reader.buffer.feed lf utf8Length maxFrameBytes text
  (taken.flatMap frameOf, ⟨decoder, buffer⟩)

/-- The last line, when the input has ended. -/
def finish (reader : Reader) : Option Frame :=
  let buffered := reader.buffer.buffered ++ reader.decoder.flush
  if reader.buffer.discarding || (trim buffered).isEmpty then none
    else some (.line (dropReturn buffered))

def readAll (reader : Reader) : List (List UInt8) → List Frame × Reader
  | [] => ([], reader)
  | chunk :: rest =>
    let now := reader.read chunk
    let later := readAll now.2 rest
    (now.1 ++ later.1, later.2)

/-- Reading chunks in two goes on where the first part ended. -/
theorem readAll_append (reader : Reader) (one two : List (List UInt8)) :
    reader.readAll (one ++ two) =
    ((reader.readAll one).1 ++ ((reader.readAll one).2.readAll two).1,
      ((reader.readAll one).2.readAll two).2) := by
  induction one generalizing reader with
  | nil => rfl
  | cons chunk rest ih => simp only [List.cons_append, readAll, ih, List.append_assoc]

/-- The chunks are decoded one after another, and the text of each is fed to the buffer. -/
theorem readAll_eq (reader : Reader) (chunks : List (List UInt8)) : ∃ pieces : List Text,
    pieces.flatten = (reader.decoder.run chunks.flatten).1
    ∧ reader.readAll chunks
      = ((reader.buffer.feedAll lf utf8Length maxFrameBytes pieces).1.flatMap frameOf,
      ⟨(reader.decoder.run chunks.flatten).2,
        (reader.buffer.feedAll lf utf8Length maxFrameBytes pieces).2⟩) := by
  induction chunks generalizing reader with
  | nil => exact ⟨[], rfl, rfl⟩
  | cons chunk rest ih =>
    obtain ⟨pieces, decoded, read⟩ := ih (reader.read chunk).2
    refine ⟨(reader.decoder.run chunk).1 :: pieces, ?_, ?_⟩
    · rw [List.flatten_cons, List.flatten_cons, Utf8State.run_append, decoded]
      rfl
    · rw [readAll, read, List.flatten_cons, Utf8State.run_append, LineBuffer.feedAll]
      simp only [Reader.read, List.flatMap_append]

end Reader

/-! ## However the input is cut -/

/-- A line with room for its text, but not for its return as well. -/
def AtLimit (line : Text) : Prop :=
  utf8Length (dropReturn line) ≤ maxFrameBytes ∧ maxFrameBytes < utf8Length line

instance (line : Text) : Decidable (AtLimit line) := inferInstanceAs (Decidable (_ ∧ _))

/-- The frames that a line may become. -/
def Framed (line : Text) (frames : List Frame) : Prop :=
  frames = frameOf (.line line) ∨ (AtLimit line ∧ frames = [.oversized])

/-- The frame of the text after the last line: as much as was decoded of it, and what the decoder
still has. -/
def lastFrame (rest held : Text) : Option Frame :=
  if maxFrameBytes < utf8Length rest then some .oversized
  else if (trim (rest ++ held)).isEmpty then none else some (.line (dropReturn (rest ++ held)))

/-- A line that was given up is refused as a whole line would be, unless only its return is too
much. -/
theorem framed_of_seen {line : Text} {taken : Taken CodeUnit}
    (seen : Seen utf8Length maxFrameBytes line taken) :
    Framed line (frameOf taken) := by
  -- A line is given up only past the limit, where its text alone may still fit.
  rcases seen with rfl | ⟨rfl, past⟩
  · exact .inl rfl
  · by_cases fits : utf8Length (dropReturn line) ≤ maxFrameBytes
    · exact .inr ⟨⟨fits, past⟩, rfl⟩
    · refine .inl ?_
      rw [frameOf, frameOf, if_pos (Nat.lt_of_not_le fits)]

/-- The frames of a whole input, as it comes in chunks. -/
def framesOf (chunks : List (List UInt8)) : List Frame :=
  (Reader.start.readAll chunks).1 ++ (Reader.start.readAll chunks).2.finish.toList

/-- The frames of an input are those of its lines in their order, and that of what follows the last
line. -/
theorem framesOf_lines (chunks : List (List UInt8)) :
    ∃ ofLines, List.Forall₂ Framed (lines lf (Utf8State.start.run chunks.flatten).1) ofLines
      ∧ framesOf chunks = ofLines.flatten
      ++ (lastFrame (unended lf (Utf8State.start.run chunks.flatten).1)
        (Utf8State.start.run chunks.flatten).2.flush).toList := by
  -- The buffer sees each line of the decoded text, in whatever pieces the text comes.
  obtain ⟨pieces, decoded, read⟩ := Reader.readAll_eq .start chunks
  have small : utf8Length [] ≤ maxFrameBytes := Nat.zero_le _
  have begun : Reads lf utf8Length maxFrameBytes [] [] .start := .start small
  have reads := begun.feedAll utf8Length_le_append pieces
  rw [List.nil_append, List.nil_append, decoded] at reads
  rw [framesOf, read]
  change Reads lf utf8Length maxFrameBytes (Utf8State.start.run chunks.flatten).1 _ _ at reads
  dsimp only [Reader.start] at reads ⊢
  revert reads
  generalize LineBuffer.feedAll lf utf8Length maxFrameBytes .start pieces = fed
  intro reads
  obtain ⟨ended, seen, taken⟩ := reads.seen
  refine ⟨ended.map frameOf, ?_, ?_⟩
  · rw [List.forall₂_map_right_iff]
    exact seen.imp fun _ _ => framed_of_seen
  · -- What is left over has been refused already, or it is the last line.
    cases discards : fed.2.discarding with
    | true =>
      have last := reads.refused.mp discards
      simp [taken, discards, Reader.finish, lastFrame, last, frameOf, List.flatMap]
    | false =>
      have last :
        ¬ maxFrameBytes < utf8Length (unended lf (Utf8State.start.run chunks.flatten).1) :=
        fun more =>
        Bool.false_ne_true (discards.symm.trans (reads.refused.mpr more))
      have buffered := reads.buffered
      rw [discards, if_neg Bool.false_ne_true] at buffered
      simp [taken, discards, buffered, Reader.finish, lastFrame, last, List.flatMap]

/-- The frames of an input are those of its lines in their order, and that of what follows the last
line. Only a line that is too long by no more than its return may be taken or refused as its input
is cut; without one, the frames are the same however it is. -/
theorem frames_of_chunks (chunks : List (List UInt8)) :
    (∃ ofLines, List.Forall₂ Framed (lines lf (Utf8State.start.run chunks.flatten).1) ofLines
      ∧ framesOf chunks = ofLines.flatten
      ++ (lastFrame (unended lf (Utf8State.start.run chunks.flatten).1)
        (Utf8State.start.run chunks.flatten).2.flush).toList)
    ∧ ((∀ line ∈ lines lf (Utf8State.start.run chunks.flatten).1, ¬ AtLimit line) →
      ∀ chunks', chunks'.flatten = chunks.flatten → framesOf chunks' = framesOf chunks) := by
  -- Away from the limit a line has one frame only, so two ways to cut the input agree.
  have unique : ∀ {texts ofLines}, (∀ line ∈ texts, ¬ AtLimit line) →
  List.Forall₂ Framed texts ofLines →
      ofLines = texts.map fun line => frameOf (.line line) := by
    intro texts ofLines clear framed
    induction framed with
    | nil => rfl
    | cons first _ ih =>
      obtain ⟨own, others⟩ := List.forall_mem_cons.mp clear
      rw [ih others, first.resolve_right fun cut => own cut.1, List.map_cons]
  refine ⟨framesOf_lines chunks, fun clear chunks' same => ?_⟩
  obtain ⟨ofLines, framed, read⟩ := framesOf_lines chunks
  obtain ⟨ofLines', framed', read'⟩ := framesOf_lines chunks'
  rw [same] at framed' read'
  rw [read, read', unique clear framed, unique clear framed']

/-- A line that is too long by its return alone is taken when its end comes with it, and refused
when its end comes later. -/
theorem at_limit_depends {bytes : List UInt8} {line : Text}
    (decoded : Utf8State.start.run bytes = (line, .start)) (open_ : lf ∉ line)
    (limit : AtLimit line) : (Reader.start.readAll [bytes ++ [10]]).1 = frameOf (.line line)
      ∧ (Reader.start.readAll [bytes, [10]]).1 = [.oversized] := by
  -- The line feed alone is decoded as itself and ends the line.
  have newline : Utf8State.start.run [10] = ([lf], .start) := by decide
  have ended : lines lf (line ++ [lf]) = [line] ∧ unended lf (line ++ [lf]) = [] := by
    simpa using @lines_written _ _ lf [line] (by simpa using open_)
  constructor
  -- In one piece the line is complete before the limit is looked at.
  · simp [Reader.readAll, Reader.read, Reader.start, Utf8State.run_append, decoded, newline,
      LineBuffer.feed, LineBuffer.start,
      LineBuffer.cut, ended, maxFrameBytes]
  · -- The limit is passed before the end comes, and nothing follows the end.
    have first : Reader.start.read bytes = ([.oversized], ⟨.start, ⟨[], true⟩⟩) := by
      simp [Reader.read, Reader.start, decoded, LineBuffer.feed, LineBuffer.start, LineBuffer.cut,
        lines_of_open open_,
        unended_of_open open_, limit.2, frameOf]
    have second : Reader.read ⟨.start, ⟨[], true⟩⟩ [10] = ([], ⟨.start, ⟨[], false⟩⟩) := by
      simp [Reader.read, newline, LineBuffer.feed, LineBuffer.cut, lines, unended, cutFrom]
    simp [Reader.readAll, first, second]

end Khala.Mcp
