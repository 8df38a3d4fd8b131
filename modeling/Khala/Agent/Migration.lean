import Khala.Agent.Inbox
import Khala.Concurrent.Crash

/-! Moving the flat inbox of a session into the directory of the room it belongs to. -/

namespace Khala.Migration

open Js Concurrent

/-! ## The state directory -/

/-- A line of an inbox file that is not blank; appends are atomic here, so every line is complete.
-/
inductive InboxLine
  | record (entry : InboxEntry)
  /-- A line that is no entry, and the `roomId` it has if it parses at all. -/
  | other (roomId : Option Text)
deriving DecidableEq

def InboxLine.entry? : InboxLine → Option InboxEntry
  | .record entry => some entry
  | .other _ => none

/-- `roomId`: an empty one counts as none. -/
def InboxLine.room : InboxLine → Option Text
  | .record entry => (some entry.roomId).filter (· ≠ [])
  | .other roomId => roomId.filter (· ≠ [])

structure ChannelMetadata where
  roomId : Text
  channelName : Option Text
  joinedAt : Text
deriving DecidableEq

/-- The files of a directory that a migration uses. -/
structure StateDir where
  inbox : Option (List InboxLine)
  /-- The file, and the cursor in it if it holds one. -/
  cursor : Option (Option Cursor)
  mode : Option Text
  /-- The metadata, unless its file is missing or names no room. -/
  channel : Option ChannelMetadata
deriving DecidableEq

structure SessionState where
  /-- The room that `session.json` names. -/
  sessionRoom : Option Text
  /-- The channel name in `status.json`. -/
  channelName : Option Text
  root : StateDir
  /-- The directories under `channels`, by their keys. -/
  channels : Text → StateDir

inductive StateName
  | cursor | mode | inbox
deriving DecidableEq

inductive Directory
  | root
  | channel (key : Text)
deriving DecidableEq

def StateDir.has (dir : StateDir) : StateName → Bool
  | .cursor => dir.cursor.isSome
  | .mode => dir.mode.isSome
  | .inbox => dir.inbox.isSome

def StateDir.without (dir : StateDir) : StateName → StateDir
  | .cursor => { dir with cursor := none }
  | .mode => { dir with mode := none }
  | .inbox => { dir with inbox := none }

/-- The directory with a file of another one. -/
def StateDir.withFile (dir other : StateDir) : StateName → StateDir
  | .cursor => { dir with cursor := other.cursor }
  | .mode => { dir with mode := other.mode }
  | .inbox => { dir with inbox := other.inbox }

def SessionState.dir (state : SessionState) : Directory → StateDir
  | .root => state.root
  | .channel key => state.channels key

def SessionState.setDir (state : SessionState) (directory : Directory) (dir : StateDir) :
    SessionState :=
  match directory with
  | .root => { state with root := dir }
  | .channel key => { state with channels := Function.update state.channels key dir }

/-! ## File operations -/

/-- Each of them is atomic. One that fails ends the migration, which is the same as a crash. -/
inductive StateOp
  /-- Whether a file is there. -/
  | present (directory : Directory) (name : StateName)
  /-- The room that `session.json` names. -/
  | readSession
  /-- The channel that `status.json` names. -/
  | readStatus
  | readInbox (directory : Directory)
  | readCursor (directory : Directory)
  | readChannel (directory : Directory)
  | writeCursor (directory : Directory) (cursor : Cursor)
  | writeChannel (directory : Directory) (metadata : ChannelMetadata)
  /-- The entries are appended in one write. -/
  | appendInbox (directory : Directory) (entries : List InboxEntry)
  /-- A file that is not there is not an error. -/
  | remove (directory : Directory) (name : StateName)
  /-- `rename` from the root; a file that is not there is not an error. -/
  | rename (name : StateName) (directory : Directory)
  | now

abbrev StateOp.Reply : StateOp → Type
  | .present _ _ => Bool
  | .readSession | .readStatus => Option Text
  | .now => Text
  | .readInbox _ => Option (List InboxLine)
  | .readCursor _ => Option Cursor
  | .readChannel _ => Option ChannelMetadata
  | .writeCursor _ _ | .writeChannel _ _ | .appendInbox _ _ | .remove _ _ | .rename _ _ => Unit

abbrev stateEffects : Interface := ⟨StateOp, StateOp.Reply⟩

/-- The operations, where the choice is the time of day. -/
def execState : Semantics stateEffects Text SessionState
  | .present directory name, _, state => some ((state.dir directory).has name, state)
  | .readSession, _, state => some (state.sessionRoom, state)
  | .readStatus, _, state => some (state.channelName, state)
  | .readInbox directory, _, state => some ((state.dir directory).inbox, state)
  -- A cursor that cannot be read is none.
  | .readCursor directory, _, state => some ((state.dir directory).cursor.join, state)
  | .readChannel directory, _, state => some ((state.dir directory).channel, state)
  | .writeCursor directory cursor, _, state =>
    some ((), state.setDir directory { state.dir directory with cursor := some (some cursor) })
  | .writeChannel directory metadata, _, state =>
    some ((), state.setDir directory { state.dir directory with channel := some metadata })
  -- Entries go after what the inbox had.
  | .appendInbox directory entries, _, state =>
    let lines := (state.dir directory).inbox.getD [] ++ entries.map .record
    some ((), state.setDir directory { state.dir directory with inbox := some lines })
  | .remove directory name, _, state =>
    some ((), state.setDir directory ((state.dir directory).without name))
  | .rename name directory, _, state =>
    -- The file moves from the root, and takes the place of one that is there.
    if state.root.has name then
      let moved := state.setDir directory ((state.dir directory).withFile state.root name)
      some ((), moved.setDir .root (moved.root.without name))
    else some ((), state)
  | .now, time, state => some (time, state)

abbrev Migrating := Program stateEffects

abbrev file (op : StateOp) : Migrating op.Reply := @Program.call stateEffects op

/-! ## The migration -/

def readEntries (directory : Directory) : Migrating (List InboxEntry) := do
  let lines ← file (.readInbox directory)
  return (lines.getD []).filterMap InboxLine.entry?

def appendEntries (directory : Directory) (entries : List InboxEntry) :
    Migrating (List InboxEntry) :=
  do
  let seen ← readEntries directory
  let fresh := freshEntries (seen.map (·.eventId)) entries
  if fresh.length ≠ 0 then file (.appendInbox directory fresh)
  return fresh

def readCursor (directory : Directory) : Migrating Cursor := do
  return cursorOf (← file (.readCursor directory))

def unread (directory : Directory) : Migrating (List InboxEntry × Cursor) := do
  let cursor ← readCursor directory
  let entries ← readEntries directory
  return (entries.drop cursor.deliveredCount, cursor)

/-- The newest line names the current room: a flat inbox outlives a move to another room. -/
def legacyRoomId : Migrating (Option Text) := do
  match ← file .readSession with
  | some saved => return some saved
  | none => return ((← file (.readInbox .root)).getD []).getLast?.bind InboxLine.room

/-- `cursor.json`, `mode.json` and `inbox.jsonl`. -/
def names : List StateName := [.cursor, .mode, .inbox]

/-- Both cursors will index the legacy inbox. -/
def settleCursors (nested : Directory) : Migrating Unit := do
  if ← file (.present nested .cursor) then
    let legacyCursor ← readCursor .root
    let channelCursor ← readCursor nested
    if legacyCursor.differs channelCursor then
      let safe := if legacyCursor.deliveredCount < channelCursor.deliveredCount then legacyCursor
        else channelCursor
      file (.writeCursor nested safe)

def publishMetadata (nested : Directory) (id : Text) : Migrating Unit := do
  let channelName ← file .readStatus
  let metadata ← file (.readChannel nested)
  if metadata.map (·.roomId) ≠ some id then
    let joinedAt ← file .now
    file (.writeChannel nested ⟨id, channelName, joinedAt⟩)

def removeAll : List StateName → Migrating Unit
  | [] => return
  | name :: rest => do
    file (.remove .root name)
    removeAll rest

def mergeInbox (nested : Directory) (inboxPresent : Bool) : Migrating Unit := do
  if inboxPresent then
    let (entries, _) ← unread .root
    let _ ← appendEntries nested entries
  removeAll [.inbox, .cursor, .mode]

/-- A file that the directory already has stays there. -/
def moveFiles (nested : Directory) : List StateName → Migrating Unit
  | [] => return
  | name :: rest => do
    if ← file (.present nested name) then file (.remove .root name)
    else file (.rename name nested)
    moveFiles nested rest

inductive Migrated
  | nothing | moved | discarded
deriving DecidableEq

def moveInto (nested : Directory) (id : Text) (cursorPresent inboxPresent : Bool) :
    Migrating Migrated :=
  do
  let destinationInbox ← file (.present nested .inbox)
  if !destinationInbox && cursorPresent then settleCursors nested
  publishMetadata nested id
  if destinationInbox then mergeInbox nested inboxPresent
  else moveFiles nested names
  return .moved

def migrateLegacy (stateKey : Text → Text) : Migrating Migrated := do
  let cursorPresent ← file (.present .root .cursor)
  let modePresent ← file (.present .root .mode)
  let inboxPresent ← file (.present .root .inbox)
  -- Without a legacy file there is nothing to do.
  if !(cursorPresent || modePresent || inboxPresent) then return .nothing
  match ← legacyRoomId with
  -- No room can be told, so the legacy files are dropped.
  | none =>
    removeAll names
    return .discarded
  | some id => moveInto (.channel (stateKey id)) id cursorPresent inboxPresent

end Khala.Migration
