import Khala.Agent.DeliverCore
import Khala.Concurrent.Machine

/-! The inbox of one channel: entries that only one writer appends, and a cursor that every
deliverer moves. -/

namespace Khala

open Js Concurrent

/-- How far an inbox has been delivered. -/
structure Cursor where
  lastDeliveredEventId : Option Text
  deliveredCount : Nat
  shownEventId : Option Text
  nudgedCount : Option Int
deriving DecidableEq, Repr

inductive StateError
  | storageFailed
deriving DecidableEq, Repr

/-- `Number.isSafeInteger`. -/
def isSafeInteger (n : Int) : Bool :=
  -(2 ^ 53) < n && n < 2 ^ 53

/-- The two files of an inbox, as far as they can be read. -/
structure InboxFiles where
  /-- The records of the inbox, without the lines that do not parse. -/
  entries : List InboxEntry
  /-- The cursor, unless its file is missing or does not hold one. -/
  cursor : Option Cursor
  /-- The runtime collects the entries in one array. -/
  fits : entries.length < 2 ^ 32

/-! ## File operations -/

inductive InboxOp
  | readCursorFile
  | readInboxFile
  | writeCursorFile (cursor : Cursor)

/-- Each file operation may fail, which is reported as `storage_failed`. -/
abbrev InboxOp.Reply : InboxOp → Type
  | readCursorFile => Except StateError (Option Cursor)
  | readInboxFile => Except StateError (List InboxEntry)
  | writeCursorFile _ => Except StateError Unit

abbrev inboxEffects : Interface := ⟨InboxOp, InboxOp.Reply⟩

abbrev InboxProgram := ExceptT StateError (Program inboxEffects)

/-- How a file operation ends; a write may fail after the new file has replaced the old one. -/
inductive FileOutcome
  | works
  | fails
  | failsAfterRename
deriving DecidableEq, Repr

def execInbox : Semantics inboxEffects FileOutcome InboxFiles
  | .readCursorFile, .works, files => some (.ok files.cursor, files)
  -- A read that works gives what the file holds, and leaves it.
  | .readInboxFile, .works, files => some (.ok files.entries, files)
  | .writeCursorFile cursor, .works, files => some (.ok (), { files with cursor := some cursor })
  -- The rename may have landed though the call then fails.
  | .writeCursorFile cursor, .failsAfterRename, files =>
    some (.error .storageFailed, { files with cursor := some cursor })
  | .readCursorFile, .fails, files => some (.error .storageFailed, files)
  | .readInboxFile, .fails, files => some (.error .storageFailed, files)
  | .writeCursorFile _, .fails, files => some (.error .storageFailed, files)
  -- Nor is there a rename in a read.
  | .readCursorFile, .failsAfterRename, _ => none
  | .readInboxFile, .failsAfterRename, _ => none

def readCursorFile : InboxProgram (Option Cursor) :=
  ExceptT.mk (@Program.call inboxEffects .readCursorFile)

def writeCursorFile (cursor : Cursor) : InboxProgram Unit :=
  ExceptT.mk (@Program.call inboxEffects (.writeCursorFile cursor))

/-! ## The inbox module -/

def readEntries : InboxProgram (List InboxEntry) :=
  ExceptT.mk (@Program.call inboxEffects .readInboxFile)

/-- The entries not seen before, each once. -/
def freshEntries (seen : List Text) : List InboxEntry → List InboxEntry
  | [] => []
  | entry :: rest =>
    if entry.eventId ∈ seen then freshEntries seen rest
    else entry :: freshEntries (entry.eventId :: seen) rest

/-- Fresh entries have identifiers that were neither seen before nor repeat. -/
theorem freshEntries_distinct (seen : List Text) (added : List InboxEntry) :
    ((freshEntries seen added).map (·.eventId)).Nodup ∧ ∀ entry ∈ freshEntries seen added,
      entry.eventId ∉ seen := by
  -- The induction is on the entries added, with those seen so far as a parameter.
  induction added generalizing seen with
  | nil => simp [freshEntries]
  | cons entry rest ih =>
    rw [freshEntries]
    split
    -- A known entry is left out.
    · exact ih seen
    -- A new entry is kept, and no later one has its identifier.
    · rename_i new
      obtain ⟨distinct, apart⟩ := ih (entry.eventId :: seen)
      refine ⟨?_, ?_⟩
      · rw [List.map_cons, List.nodup_cons]
        refine ⟨?_, distinct⟩
        rintro repeated
        obtain ⟨other, inside, same⟩ := List.mem_map.mp repeated
        exact apart other inside (by simp [same])
      · intro other inside
        rcases List.mem_cons.mp inside with rfl | later
        · exact new
        · exact fun old => apart other later (List.mem_cons_of_mem _ old)

/-- An entry that is added was seen before, or one with its identifier is fresh. -/
theorem mem_freshEntries (seen : List Text) (added : List InboxEntry) :
    (∀ entry ∈ freshEntries seen added, entry ∈ added)
      ∧ ∀ entry ∈ added, entry.eventId ∈ seen ∨ ∃ kept ∈ freshEntries seen added,
        kept.eventId = entry.eventId := by
  -- The same induction: what is kept stems from the entries, and every entry is covered.
  induction added generalizing seen with
  | nil => simp [freshEntries]
  | cons entry rest ih =>
    rw [freshEntries]
    split
    next known =>
      -- A known entry is covered by the one seen before.
      obtain ⟨within, covered⟩ := ih seen
      refine ⟨fun other inside => List.mem_cons_of_mem _ (within other inside), fun other inside =>
        ?_⟩
      rcases List.mem_cons.mp inside with rfl | later
      · exact .inl known
      · exact covered other later
    next =>
      -- A new entry covers itself, and may cover later ones.
      obtain ⟨within, covered⟩ := ih (entry.eventId :: seen)
      refine ⟨fun other inside => ?_, fun other inside => ?_⟩
      · rcases List.mem_cons.mp inside with rfl | later
        · exact List.mem_cons_self
        · exact List.mem_cons_of_mem _ (within other later)
      · rcases List.mem_cons.mp inside with rfl | later
        · exact .inr ⟨other, List.mem_cons_self, rfl⟩
        · rcases covered other later with known | ⟨kept, found, same⟩
          · rcases List.mem_cons.mp known with first | earlier
            · exact .inr ⟨entry, List.mem_cons_self, first.symm⟩
            · exact .inl earlier
          · exact .inr ⟨kept, List.mem_cons_of_mem _ found, same⟩

/-- Nothing is fresh when everything was seen. -/
theorem freshEntries_eq_nil {seen : List Text} {added : List InboxEntry}
    (known : ∀ entry ∈ added, entry.eventId ∈ seen) :
    freshEntries seen added = [] := by
  induction added with
  | nil => rfl
  | cons entry rest ih =>
    rw [freshEntries, if_pos (known entry List.mem_cons_self)]
    exact ih fun other inside => known other (List.mem_cons_of_mem _ inside)

/-- The cursor a file holds; anything else counts as nothing delivered. -/
def cursorOf (file : Option Cursor) : Cursor :=
  match file with
  | some cursor => if isSafeInteger cursor.deliveredCount then cursor else ⟨none, 0, none, none⟩
  | none => ⟨none, 0, none, none⟩

def readCursor : InboxProgram Cursor := do
  return cursorOf (← readCursorFile)

def unread : InboxProgram (List InboxEntry × Cursor) := do
  let cursor ← readCursor
  let entries ← readEntries
  return (entries.drop cursor.deliveredCount, cursor)

/-- Where wakes start counting: past the delivered cursor and past any mention that was already
nudged. -/
def wakeStart (cursor : Cursor) : Nat :=
  match cursor.nudgedCount with
  | some count => if isSafeInteger count then max cursor.deliveredCount count.toNat
    else cursor.deliveredCount
  | none => cursor.deliveredCount

/-- Whether a cursor read from the file is not the one a caller has seen. -/
def Cursor.differs (current expected : Cursor) : Bool :=
  current.deliveredCount != expected.deliveredCount
    || current.lastDeliveredEventId != expected.lastDeliveredEventId

/-- Records that the entries up to a count earned their nudge; the delivered cursor is left alone.
-/
def markNudged (expected : Cursor) (count : Nat) : InboxProgram Unit := do
  let current ← readCursor
  if current.differs expected then return
  writeCursorFile { current with nudgedCount := some count }

/-- Moves the cursor past the delivered entries, or answers with a conflict. -/
def advanceCursor (expected : Cursor) (delivered : List InboxEntry) (shown : Bool) :
    InboxProgram (Option Cursor) :=
  do
  let current ← readCursor
  if current.differs expected then return none
  match delivered.getLast? with
  | none => return some expected
  | some last =>
    let entries ← readEntries
    let slice := (entries.drop expected.deliveredCount).take delivered.length
    if slice.map (·.eventId) ≠ delivered.map (·.eventId) then return none
    let next : Cursor := {
      lastDeliveredEventId := some last.eventId
      deliveredCount := expected.deliveredCount + delivered.length
      -- An empty identifier is dropped like a missing one.
      shownEventId := (if shown then some last.eventId else current.shownEventId).filter (· ≠ [])
      nudgedCount := if wakeStart current > expected.deliveredCount + delivered.length
        then current.nudgedCount else none }
    writeCursorFile next
    return some next

/-! ## The inbox as a service -/

inductive InboxCall
  | readCursor
  | readEntries
  | unread
  | markNudged (expected : Cursor) (count : Nat)
  | advanceCursor (expected : Cursor) (delivered : List InboxEntry) (shown : Bool)

abbrev InboxCall.Reply : InboxCall → Type
  | readCursor => Except StateError Cursor
  | readEntries => Except StateError (List InboxEntry)
  | unread => Except StateError (List InboxEntry × Cursor)
  | markNudged _ _ => Except StateError Unit
  | advanceCursor _ _ _ => Except StateError (Option Cursor)

abbrev inboxCalls : Interface := ⟨InboxCall, InboxCall.Reply⟩

def inboxBody : (call : InboxCall) → Program inboxEffects call.Reply
  | .readCursor => readCursor.run
  | .readEntries => readEntries.run
  | .unread => unread.run
  | .markNudged expected count => (markNudged expected count).run
  | .advanceCursor expected delivered shown => (advanceCursor expected delivered shown).run

/-- There is one writer, so nothing comes between its read and its append. -/
def appendEntries (added : List InboxEntry) (files : InboxFiles) : Option InboxFiles :=
  let entries := files.entries ++ freshEntries (files.entries.map (·.eventId)) added
  if fits : entries.length < 2 ^ 32 then some ⟨entries, files.cursor, fits⟩ else none

/-- One channel's inbox and the processes that work on it. -/
abbrev inbox : Service where
  Calls := inboxCalls
  Effects := inboxEffects
  Store := InboxFiles
  Choice := FileOutcome
  body := inboxBody
  exec := fun _ _ => execInbox
  Event := List InboxEntry
  outside := appendEntries

/-! ## Deliverers -/

/-- A deliverer makes calls on the inbox, each of which may throw. -/
abbrev Deliverer := ExceptT StateError (Program inboxCalls)

namespace Deliverer

def readCursor : Deliverer Cursor := ExceptT.mk (@Program.call inboxCalls .readCursor)
def readEntries : Deliverer (List InboxEntry) := ExceptT.mk (@Program.call inboxCalls .readEntries)
def unread : Deliverer (List InboxEntry × Cursor) := ExceptT.mk (@Program.call inboxCalls .unread)
def markNudged (expected : Cursor) (count : Nat) : Deliverer Unit :=
  ExceptT.mk (@Program.call inboxCalls (.markNudged expected count))
def advanceCursor (expected : Cursor) (delivered : List InboxEntry) (shown : Bool) :
    Deliverer (Option Cursor) :=
  ExceptT.mk (@Program.call inboxCalls (.advanceCursor expected delivered shown))

/-- Leaving a quiet mode drops what piled up behind the cursor. -/
def skipBacklog : Nat → Deliverer Unit
  | 0 => throw .storageFailed
  | attempts + 1 => do
    let (entries, cursor) ← unread
    if (← advanceCursor cursor entries false).isSome then return
    skipBacklog attempts

/-- Pings that arrived while muted must not nudge later. -/
def skipPings : Deliverer Unit := do
  let cursor ← readCursor
  markNudged cursor (← readEntries).length

/-- `read` with a wait: each round looks for an entry that wakes the agent, then consumes everything
unread. -/
def readWait (wakes : Nat → InboxEntry → Bool) : Nat → Deliverer Nat
  | 0 => return 0
  | rounds + 1 => do
    let (entries, cursor) ← unread
    if entries.any (wakes rounds) then
      if (← advanceCursor cursor entries true).isSome then return entries.length
    readWait wakes rounds

/-- One channel of `channelFrames` in a quiet mode: the two reads run side by side, in either order.
-/
def nudge (cursorFirst : Bool) (wakes : InboxEntry → Bool) : Deliverer Bool := do
  let (cursor, entries) ←
    -- The order of the two reads is the caller's.
    if cursorFirst then do
      let cursor ← readCursor
      pure (cursor, ← readEntries)
    else do
      let entries ← readEntries
      pure (← readCursor, entries)
  -- Only what lies past the cursor and was not announced before can wake.
  if (entries.drop (wakeStart cursor)).any wakes then
    markNudged cursor entries.length
    return true
  return false

/-- One channel of `channelFrames` in a delivering mode. How many of the entries the frame can hold
depends on the attempt and on the other channels; a conflict is retried once on a fresh read. -/
def deliver (consumed : Nat → List InboxEntry → Nat) (shown : Bool) :
    Nat → Deliverer (Option (List InboxEntry))
  | 0 => return none
  | attempts + 1 => do
    let (entries, cursor) ← unread
    let chosen := entries.take (consumed attempts entries)
    if chosen.isEmpty then return none
    if (← advanceCursor cursor chosen shown).isSome then return some chosen
    deliver consumed shown attempts

end Deliverer

end Khala
