import Khala.Agent.DeliverCore
import Khala.Contracts.TextSize
import Khala.Framing.Bisect

/-! Which unread messages a hook puts into one frame, and which channels share its budget. -/

namespace Khala

open Js Decode

/-- What selecting a frame throws. -/
inductive FrameError
  /-- The `RangeError` of a time that is no date. -/
  | invalidTime
  /-- `frame_metadata_too_large`. -/
  | metadataTooLarge
deriving DecidableEq, Repr

def MAX_FRAME_BYTES : Nat := 64 * 1024
def MAX_FRAME_MESSAGES : Nat := 50

/-- What a frame is made of has a body that can be shortened. -/
class Bodied (T : Type) where
  body : T → Text
  /-- `{ ...entry, body }`. -/
  withBody : T → Text → T

instance : Bodied InboxEntry := ⟨InboxEntry.body, fun entry body => { entry with body }⟩

structure FrameChoice (T : Type) where
  frame : Option Text
  consumed : List T
deriving DecidableEq

section

variable {T : Type} [Bodied T] (render : List T → Except FrameError Text) (truncatedSuffix : Text)

/-- The entry with its first `points` code points and the suffix. -/
def cutEntry (entry : T) (points : Nat) : T :=
  Bodied.withBody entry (((codePoints (Bodied.body entry)).take points).flatten ++ truncatedSuffix)

/-- Whether the frame of the entry cut there is within the budget. -/
def cutFits (budget : Int) (entry : T) (points : Nat) : Except FrameError Bool := do
  let text ← render [cutEntry truncatedSuffix entry points]
  return decide ((utf8Length text : Int) ≤ budget)

variable (budget : Int) (truncate : Bool)

/-- The loop over the entries: what is rendered so far, and how many entries are consumed by it. -/
def selectEntries (rendered : List T) (consumedCount : Nat) :
    List T → Except FrameError (List T × Nat)
  | [] => .ok (rendered, consumedCount)
  | entry :: rest =>
    if rendered.length = MAX_FRAME_MESSAGES then .ok (rendered, consumedCount)
    else do
      let text ← render (rendered ++ [entry])
      if (utf8Length text : Int) > budget then
        if rendered ≠ [] ∨ truncate = false then .ok (rendered, consumedCount)
        else do
          -- Only the first entry of a frame is ever cut, at the last code point that fits.
          let length := (codePoints (Bodied.body entry)).length
          let low ← Bisect.lastFrom (cutFits render truncatedSuffix budget entry) length 0 length
          let truncated := cutEntry truncatedSuffix entry low
          let text ← render [truncated]
          if (utf8Length text : Int) > budget then .error .metadataTooLarge
          else .ok (rendered ++ [truncated], consumedCount + 1)
      else selectEntries (rendered ++ [entry]) (consumedCount + 1) rest

/-- The listener's `selectFrame`: the caller owns the frame's copy, and only the bounds are kept
here. -/
def selectBounded (entries : List T) : Except FrameError (FrameChoice T) := do
  let (rendered, consumedCount) ← selectEntries render truncatedSuffix budget truncate [] 0 entries
  match rendered with
  | [] => return ⟨none, entries.take consumedCount⟩
  | _ :: _ => return ⟨some (← render rendered), entries.take consumedCount⟩

end

def TRUNCATED : Text := lit " …[truncated]"

/-- A channel and what is unread in it. -/
structure FrameGroup where
  channelName : Option Text
  roomId : Text
  entries : List InboxEntry
  you : Option Text
deriving DecidableEq

/-- `channel.channelName ?? channel.roomId`. -/
def FrameGroup.name (group : FrameGroup) : Text := group.channelName.getD group.roomId

/-- A group with its frame and the entries that the frame consumes. -/
structure SelectedGroup where
  group : FrameGroup
  frame : Text
  consumed : List InboxEntry
deriving DecidableEq

section

variable (dateParse : Text → Option Int)

/-- `renderFrame`, with what `toISOString` throws. -/
def frameText (channel : Text) (you : Option Text) (entries : List InboxEntry) :
    Except FrameError Text :=
  match renderFrame dateParse channel entries you with
  | some text => .ok text
  | none => .error .invalidTime

def selectFrame (group : FrameGroup) (budget : Int) (truncate : Bool) :
    Except FrameError (FrameChoice InboxEntry) :=
  selectBounded (frameText dateParse group.name group.you) TRUNCATED budget truncate group.entries

/-- The time of a group's first entry. -/
def FrameGroup.since (group : FrameGroup) : Option Int :=
  group.entries.head?.bind fun entry => dateParse entry.ts

/--
The order of the groups: the one whose first entry is older goes first.

The runtime leaves the order open when a time is no date; showing that entry throws in any order.
-/
def olderFirst (one two : FrameGroup) : Bool :=
  decide ((one.since dateParse).getD 0 ≤ (two.since dateParse).getD 0)

/-- The groups that have entries, oldest first entry first. -/
def orderedGroups (groups : List FrameGroup) : List FrameGroup :=
  (groups.filter fun group => group.entries ≠ []).mergeSort (olderFirst dateParse)

/-- The loop over the groups: what is selected so far, and how many bytes it uses. -/
def selectGroups (budget : Nat) (selected : List SelectedGroup) (used : Nat) :
    List FrameGroup → Except FrameError (List SelectedGroup)
  | [] => .ok selected
  | group :: rest => do
    -- A frame after the first is joined to it by a newline.
    let gap : Nat := if selected = [] then 0 else 1
    let result ← selectFrame dateParse group ((budget : Int) - used - gap) (selected = [])
    match result.frame with
    | none => selectGroups budget selected used rest
    | some frame =>
      let bytes := utf8Length frame + gap
      if used + bytes > budget then selectGroups budget selected used rest
      else selectGroups budget (selected ++ [⟨group, frame, result.consumed⟩]) (used + bytes) rest

/-- Later channels wait rather than truncating to the remainder of another channel's budget. -/
def selectFrames (groups : List FrameGroup) (budget : Nat) :
    Except FrameError (List SelectedGroup) :=
  selectGroups dateParse budget [] 0 (orderedGroups dateParse groups)

end

end Khala
