import Khala.Js.Text

/-! The listening mode of one channel: what `mode.json` holds and who writes it. -/

namespace Khala

open Js

inductive ListeningMode
  | steer
  | sync
  | async
  | mute
deriving DecidableEq, Repr

/-- The listener timeouts an owner can choose; `off` is zero minutes. -/
inductive IdleMuteMinutes
  | quarter
  | hour
  | fourHours
  | day
  | off
deriving DecidableEq, Repr

def IdleMuteMinutes.minutes : IdleMuteMinutes → Int
  | .quarter => 15
  | .hour => 60
  | .fourHours => 240
  | .day => 1440
  | .off => 0

inductive ChangedBy
  | owner
  | agent
deriving DecidableEq, Repr

/-- The fields of `mode.json`; each writer leaves out some of them. -/
structure ModeRecord where
  mode : Option ListeningMode
  archived : Option Bool
  locked : Option Bool
  idleMuteMin : Option IdleMuteMinutes
  changedBy : Option ChangedBy
  reason : Option Text
  eventId : Option Text
  eventTs : Option Int
  pendingPublish : Bool
  /-- Milliseconds since the epoch. -/
  updatedAt : Option Int
deriving DecidableEq, Repr

/-- The contents of `mode.json`, unless there is no such file. -/
abbrev ModeFile : Type := Option ModeRecord

/-- A record without any field. -/
def ModeRecord.empty : ModeRecord := ⟨none, none, none, none, none, none, none, none, false, none⟩

structure ModeState where
  mode : ListeningMode
  archived : Bool
  locked : Bool
  idleMuteMin : IdleMuteMinutes
  ownerSetAt : Int
deriving DecidableEq, Repr

def readModeState (file : ModeFile) : ModeState :=
  let record := file.getD .empty
  { mode := record.mode.getD .sync
    archived := record.archived == some true
    locked := record.locked == some true
    idleMuteMin := record.idleMuteMin.getD .hour
    ownerSetAt := if record.changedBy = some .owner then record.updatedAt.getD 0 else 0 }

/-- The listener timeout is due once it has passed since the newest of the last human message, the
owner's last mode change and the join. -/
def idleMuteDue (state : ModeState) (lastHumanAt joinedAt now : Int) : Bool :=
  let since := max lastHumanAt (max state.ownerSetAt joinedAt)
  0 < state.idleMuteMin.minutes && state.mode != .mute && !state.archived
    && !state.locked && 0 < since
    && state.idleMuteMin.minutes * 60000 ≤ now - since

/-- Modes that never deliver frames, so their backlog builds up behind the cursor. -/
def ListeningMode.quiet : ListeningMode → Bool
  | .async => true
  | .mute => true
  | _ => false

/-- Attention order for an agent's changes of its own. -/
def ListeningMode.attention : ListeningMode → Nat
  | .mute => 0
  | .async => 1
  | .sync => 2
  | .steer => 3

/-- What the clock says, and whether the inbox takes the skips that a change of mode may call for.
-/
structure ModeMoment where
  now : Int
  skips : Bool

/-- Who changes the mode and with which further fields. -/
structure ModeMeta where
  changedBy : ChangedBy
  reason : Option Text
  eventId : Option Text
  eventTs : Option Int
  locked : Option Bool
  idleMuteMin : Option IdleMuteMinutes
  pendingPublish : Bool
  keepBacklog : Bool

/-- Mirrors the owner's archive flag; unarchiving skips the backlog like leaving a quiet mode. -/
def applyArchived (moment : ModeMoment) (archived : Bool) (file : ModeFile) : Option ModeFile :=
  if (readModeState file).archived = archived then some file
  else
    let stored := (readModeState file).mode
    let skipping := !archived && (!stored.quiet || stored == .async)
    if skipping && !moment.skips then none
    else some (some { file.getD .empty with archived := some archived })

/-- The record that `applyListeningMode` writes over the state it has read. -/
def modeRecord (state : ModeState) (next : ListeningMode) (info : ModeMeta) (now : Int) :
    ModeRecord where
  mode := some next
  -- Only what differs from the default is written.
  archived := if state.archived then some true else none
  locked := info.locked.or (if state.locked then some true else none)
  idleMuteMin :=
    info.idleMuteMin.or (if state.idleMuteMin ≠ .hour then some state.idleMuteMin else none)
  changedBy := some info.changedBy
  reason := info.reason
  eventId := info.eventId
  eventTs := info.eventTs
  pendingPublish := info.pendingPublish
  updatedAt := some now

def applyListeningMode (moment : ModeMoment) (next : ListeningMode) (info : ModeMeta)
    (file : ModeFile) :
    Option ModeFile :=
  let state := readModeState file
  let skipping :=
    (state.mode.quiet && !next.quiet && !info.keepBacklog)
    || (state.mode == .mute && next == .async)
  if skipping && !moment.skips then none
  else some (some (modeRecord state next info moment.now))

/-! ## The writers -/

/-- A listening-mode command of the owner. A lock or a timeout is sent only when the owner changes
it. -/
structure ModeCommand where
  eventId : Text
  ts : Int
  mode : ListeningMode
  locked : Option Bool
  idleMuteMin : Option IdleMuteMinutes
deriving DecidableEq, Repr

/-- Whether a command is the one already applied, or older than it. -/
def staleCommand (file : ModeFile) (command : ModeCommand) : Bool :=
  file.any fun previous => (previous.eventId == some command.eventId && !previous.pendingPublish)
    || previous.eventTs.any (command.ts < ·)

/-- `intakeMode`: the owner's command, published or not. -/
def intakeMode (asyncOnly : Bool) (moment : ModeMoment) (command : ModeCommand) (published : Bool)
    (file : ModeFile) : Option ModeFile :=
  if staleCommand file command then some file
  else
    let mode := if asyncOnly && command.mode != .mute then .async else command.mode
    applyListeningMode moment mode
      { changedBy := .owner, reason := none, eventId := some command.eventId,
        eventTs := some command.ts,
        locked := command.locked, idleMuteMin := command.idleMuteMin, pendingPublish := !published,
        keepBacklog := false } file

inductive ModeRefusal
  | archived
  | locked
  | async_only
  | raise_requires_owner_request
deriving DecidableEq, Repr

inductive SetModeError
  | refused (reason : ModeRefusal)
  | send_failed
  | storage_failed
deriving DecidableEq, Repr

/-- Whether an agent changes its mode by itself or because a human asked for it. -/
inductive ModeTrigger
  | self
  | owner_request
deriving DecidableEq, Repr

structure SetModeInput where
  trigger : ModeTrigger
  reason : Text
  keepBacklog : Bool

/-- `setMode`: the mode it leaves behind, or why it changed nothing. -/
def setMode (asyncOnly : Bool) (moment : ModeMoment) (mode : ListeningMode) (input : SetModeInput)
    (published : Bool) (file : ModeFile) : Except SetModeError ModeFile :=
  let state := readModeState file
  if state.archived then .error (.refused .archived)
  else if state.locked then .error (.refused .locked)
  else if asyncOnly && mode != .async && mode != .mute then .error (.refused .async_only)
  else if input.trigger == .self && mode.attention > state.mode.attention then
    .error (.refused .raise_requires_owner_request)
  else if mode = state.mode then .ok file
  else if !published then .error .send_failed
  else
    -- The last owner command's id and time stay, so replays of it and older commands remain
    -- ignored.
    let owner := file.getD .empty
    match applyListeningMode moment mode
      { changedBy := .agent, reason := some input.reason, eventId := owner.eventId.filter (· ≠ []),
        eventTs := owner.eventTs, locked := none, idleMuteMin := none, pendingPublish := false,
        keepBacklog := input.keepBacklog } file with
    | some after => .ok after
    | none => .error .storage_failed

/-- `idleMute`: once the owner's timeout is due, the agent mutes itself. -/
def idleMute (asyncOnly : Bool) (moment : ModeMoment) (lastHumanAt joinedAt : Int) (reason : Text)
    (published : Bool) (file : ModeFile) : Except SetModeError ModeFile :=
  if idleMuteDue (readModeState file) lastHumanAt joinedAt moment.now then
    setMode asyncOnly moment .mute { trigger := .self, reason, keepBacklog := false } published file
  else .ok file

/-- The mode write of a fresh join; a session may not report modes. -/
def joinMode (asyncOnly : Bool) (reported : Option ListeningMode) (file : ModeFile) : ModeFile :=
  if asyncOnly then
    let state := readModeState file
    let mode := if state.mode = .mute then .mute else .async
    -- An agent that is woken by nothing but its inbox stays asynchronous, unless it is muted.
    some { ModeRecord.empty with
      mode := some mode, idleMuteMin := if state.idleMuteMin ≠ .hour
        then some state.idleMuteMin else none }
  else
    match reported with
    -- The mode that was reported goes over what the file has.
    | some mode => some { file.getD .empty with mode := some mode }
    | none => none

/-- The archive flag that a join mirrors, where the session knows it. -/
def joinArchived (asyncOnly : Bool) (moment : ModeMoment) (archived : Option Bool)
    (file : ModeFile) :
    Option ModeFile :=
  match archived with
  | some flag => if asyncOnly then some file else applyArchived moment flag file
  | none => some file

end Khala
