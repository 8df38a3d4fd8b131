import Khala.Concurrent.Contract
import Khala.Contracts.Decode
import Khala.Js.Map

/-! Creating a channel under an operation identity: the intent is journaled with a lease before the
room is made, and a lost response is looked up, never answered by another room. -/

namespace Khala.ChannelCreate

open Js Concurrent

inductive ChannelMembership
  | joining | joined | left | revoked
deriving DecidableEq, Repr

structure ChannelSummary where
  roomId : Text
  title : Option Text
  membership : ChannelMembership
  revision : Text
deriving DecidableEq, Repr

inductive ChannelRejection
  | forbidden | not_found | not_joined | too_large | invalid_request | operation_mismatch
deriving DecidableEq, Repr

/-- The result of a create. -/
inductive CreateResult
  | ok (room : ChannelSummary)
  | rejected (code : ChannelRejection)
  | unavailable
  | outcomeUnknown (operationId : Text)
deriving DecidableEq, Repr

/-! ## The journal -/

inductive CreateState
  | attempting | unknown | not_applied | created
deriving DecidableEq, Repr

structure CreateRecord where
  ownerId : Text
  title : Option Text
  state : CreateState
  leaseUntilMs : Option Int
  room : Option ChannelSummary
deriving DecidableEq, Repr

/-- What the journal holds; what it says of sends and intros is left out. -/
inductive JournalRecord
  | create (record : CreateRecord)
  | send
  | intro
deriving DecidableEq, Repr

inductive JournalClaim
  | claimed (revision : Nat)
  | exists (value : JournalRecord) (revision : Nat)
  | unavailable

inductive JournalWrite
  | stored (revision : Nat)
  | conflict
  | unavailable

/-- `journalKey.create`. -/
def journalKey (operationId : Text) : Text := lit "room.create:" ++ operationId

/-- A record with its revision, and the number of the call that stored it. -/
structure Stored where
  value : JournalRecord
  revision : Nat
  writer : Nat
deriving DecidableEq, Repr

/-! ## The messaging substrate -/

/-- How a create of a room settles. -/
inductive SubstrateEffect
  | done (room : ChannelSummary)
  | rejected (code : ChannelRejection)
  | unavailable
  | unknown
deriving DecidableEq, Repr

inductive CreateLookup
  | found (room : ChannelSummary)
  | absent
  | unknown
  | unavailable
deriving DecidableEq, Repr

/-- A `createRoom` call on its way, the lease it was made under and the room it has made. -/
structure RoomCall where
  operationId : Text
  leaseUntil : Int
  landed : Option Text
  settled : Bool
deriving DecidableEq, Repr

/-- The journal the callers share, their clock, and the rooms with the operations they are tagged
with. -/
structure World where
  now : Int
  records : Text → Option Stored
  sequence : Nat
  /-- The `createRoom` call that a call of `createChannel` has made. -/
  calls : Nat → Option RoomCall
  rooms : List (Text × ChannelSummary)

def World.initial (now : Int) : World := ⟨now, fun _ => none, 0, fun _ => none, []⟩

/-- The identities of the rooms that were made for an operation. -/
def World.roomsOf (world : World) (operationId : Text) : List Text :=
  (world.rooms.filter (·.1 = operationId)).map (·.2.roomId)

/-- Stores a record under a new revision. -/
def World.put (world : World) (writer : Nat) (key : Text) (value : JournalRecord) : World :=
  { world with
    sequence := world.sequence + 1
    records := Function.update world.records key (some ⟨value, world.sequence + 1, writer⟩) }

/-! ## Effects -/

inductive DeviceState
  | new | initializing | ready | locked | lost | revoked | failed
deriving DecidableEq, Repr

/-- What the device gate sees: whether the service was stopped or the call aborted, and the device.
-/
structure GateView where
  stopped : Bool
  state : DeviceState
  deviceId : Option Text

inductive CreateOp
  /-- Asks for the capabilities. -/
  | gate
  | clock
  /-- Writes a record where there is none. -/
  | claim (key : Text) (value : JournalRecord)
  /-- Writes over a record, at its revision. -/
  | replace (key : Text) (expectedRevision : Nat) (value : JournalRecord)
  /-- Calls `createRoom`, under a lease that the substrate is not told. -/
  | beginCreate (operationId : Text) (title : Option Text) (leaseUntil : Int)
  /-- Waits for the call to settle. -/
  | endCreate
  /-- Looks for a room of this operation. -/
  | findCreatedRoom (operationId : Text)

/-- The replies; the substrate may also throw. -/
abbrev CreateOp.Reply : CreateOp → Type
  | gate => GateView
  | clock => Int
  | claim _ _ => JournalClaim
  | replace _ _ _ => JournalWrite
  | beginCreate _ _ _ => Unit
  | endCreate => Option SubstrateEffect
  | findCreatedRoom _ => Option CreateLookup

abbrev createEffects : Interface := ⟨CreateOp, CreateOp.Reply⟩

abbrev CreateProgram := Program createEffects

def perform (op : CreateOp) : CreateProgram op.Reply := @Program.call createEffects op

/-- What becomes of a journal operation: it works, nothing is stored, or its reply is lost. -/
inductive JournalFate
  | works
  | lost
  | replyLost
deriving DecidableEq

/-- How the surroundings answer an operation. -/
structure CreateChoice where
  view : GateView
  journal : JournalFate
  effect : Option SubstrateEffect
  lookup : Option CreateLookup

/-- Whether a create may settle so: `done` names the room that it made. That a create which is
refused or was unavailable has made none, and makes none later, is assumed of the substrate, whose
contract leaves only `unknown` open. -/
def RoomCall.maySettle (call : RoomCall) : Option SubstrateEffect → Bool
  | some (.done room) => call.landed = some room.roomId
  | some (.rejected _) => call.landed = none
  | some .unavailable => call.landed = none
  | some .unknown => true
  | none => true

/-- Whether the lookup may answer so: it finds a room that is there, and `absent` proves that there
is none. -/
def World.mayAnswer (world : World) (operationId : Text) : Option CreateLookup → Bool
  | some (.found room) => room.roomId ∈ world.roomsOf operationId
  | some .absent => world.roomsOf operationId = []
  | some .unknown => true
  | some .unavailable => true
  | none => true

/-- The effects of the call with the given number. Journal operations are atomic. -/
def execCreate (tag : Nat) : Semantics createEffects CreateChoice World
  | .gate, choice, world => some (choice.view, world)
  | .clock, _, world => some (world.now, world)
  | .claim key value, choice, world =>
    match choice.journal, world.records key with
    | .works, some found => some (.exists found.value found.revision, world)
    -- The record may be there although the answer is lost.
    | .works, none => some (.claimed (world.sequence + 1), world.put tag key value)
    | .replyLost, none => some (.unavailable, world.put tag key value)
    | _, _ => some (.unavailable, world)
  | .replace key expectedRevision value, choice, world =>
    -- The revision decides, whether or not the answer comes.
    if (world.records key).map (·.revision) ≠ some expectedRevision then
      some (if choice.journal = .works then .conflict else .unavailable, world)
    else match choice.journal with
      | .works => some (.stored (world.sequence + 1), world.put tag key value)
      | .replyLost => some (.unavailable, world.put tag key value)
      | .lost => some (.unavailable, world)
  | .beginCreate operationId _ leaseUntil, _, world =>
    some ((), { world with calls := Function.update world.calls tag (some ⟨operationId, leaseUntil, none, false⟩) })
  -- The call settles with an outcome that fits what it did.
  | .endCreate, choice, world =>
    match world.calls tag with
    | none => none
    | some call =>
      if call.maySettle choice.effect then
        some (choice.effect, { world with calls := Function.update world.calls tag (some { call with settled := true }) })
      else none
  | .findCreatedRoom operationId, choice, world =>
    if world.mayAnswer operationId choice.lookup then some (choice.lookup, world) else none

/-! ## The program -/

/-- The parts of a create that its callers fix. -/
structure CreateBase where
  ownerId : Text
  title : Option Text

/-- `CREATE_LEASE_MS`: how long an outstanding create excludes other callers. -/
def createLeaseMs : Int := 120000

/-- `attempt()`. -/
def CreateBase.attempt (base : CreateBase) (leaseUntil : Int) : JournalRecord :=
  .create ⟨base.ownerId, base.title, .attempting, some leaseUntil, none⟩

/-- The record of a create that has ended. -/
def CreateBase.ended (base : CreateBase) (state : CreateState) (room : Option ChannelSummary) :
    JournalRecord :=
  .create ⟨base.ownerId, base.title, state, none, room⟩

/-- `deviceGate`: effects run only on a ready device. -/
def deviceGate (view : GateView) : Option CreateResult :=
  if view.stopped then some .unavailable
  else if view.state = .revoked ∨ view.state = .lost then some (.rejected .forbidden)
  else if view.state ≠ .ready ∨ view.deviceId = none then some .unavailable
  else none

/-- A thrown effect may have landed. -/
def safeEffect (settled : Option SubstrateEffect) : SubstrateEffect := settled.getD .unknown

/-- Makes the room, and journals how that ended; what becomes of that write is not looked at. -/
def runCreate (operationId : Text) (base : CreateBase) (revision : Nat) (leaseUntil : Int) :
    CreateProgram CreateResult :=
  do
  perform (.beginCreate operationId base.title leaseUntil)
  -- Each outcome is written to the journal before it is told.
  match safeEffect (← perform .endCreate) with
  | .done room =>
    let _ ← perform (.replace (journalKey operationId) revision (base.ended .created (some room)))
    return .ok room
  | .rejected code =>
    -- Nothing was created, so a later try may start over.
    let _ ← perform (.replace (journalKey operationId) revision (base.ended .not_applied none))
    return .rejected code
  | .unavailable =>
    let _ ← perform (.replace (journalKey operationId) revision (base.ended .not_applied none))
    return .unavailable
  | .unknown =>
    -- The room may be there, and a later try has to look for it.
    let _ ← perform (.replace (journalKey operationId) revision (base.ended .unknown none))
    return .outcomeUnknown operationId

/-- Resolves an earlier attempt whose outcome was lost; none means that it created nothing. -/
def reconcile (operationId : Text) (found : CreateRecord) (revision : Nat) :
    CreateProgram (Option CreateResult) :=
  do
  match ← perform (.findCreatedRoom operationId) with
  -- A room that is found is the operation's.
  | some (.found room) =>
    let _ ← perform (.replace (journalKey operationId) revision
      (.create { found with state := .created, leaseUntilMs := none, room := some room }))
    return some (.ok room)
  -- Only a definite absence lets a new call be made.
  | some .absent => return none
  | some .unknown => return some (.outcomeUnknown operationId)
  | some .unavailable => return some (.outcomeUnknown operationId)
  | none => return some (.outcomeUnknown operationId)

/-- Takes the lease over and creates. -/
def takeLease (operationId : Text) (base : CreateBase) (revision : Nat) :
    CreateProgram CreateResult :=
  do
  let leaseUntil := (← perform .clock) + createLeaseMs
  match ← perform (.replace (journalKey operationId) revision (base.attempt leaseUntil)) with
  | .unavailable => return .unavailable
  | .conflict => return .outcomeUnknown operationId
  | .stored taken => runCreate operationId base taken leaseUntil

/-- Whether another caller's attempt is still outstanding. -/
def leaseLive (found : CreateRecord) : CreateProgram Bool :=
  match found.state, found.leaseUntilMs with
  | .attempting, some leaseUntil => do return (← perform .clock) < leaseUntil
  | _, _ => return false

/-- Goes on from an earlier attempt that has not created the room, as far as is known. -/
def retryCreate (operationId : Text) (base : CreateBase) (found : CreateRecord) (revision : Nat) :
    CreateProgram CreateResult := do
  if ← leaseLive found then return .outcomeUnknown operationId
  else if found.state = .not_applied then takeLease operationId base revision
  else match ← reconcile operationId found revision with
    | some result => return result
    | none => takeLease operationId base revision

/-- The record that was there when the operation was claimed. -/
def resumeCreate (operationId : Text) (base : CreateBase) (value : JournalRecord) (revision : Nat) :
    CreateProgram CreateResult :=
  match value with
  | .create found =>
    if found.ownerId ≠ base.ownerId ∨ found.title ≠ base.title
      then return .rejected .operation_mismatch
    else match found.state, found.room with
      | .created, some room => return .ok room
      | _, _ => retryCreate operationId base found revision
  | _ => return .rejected .operation_mismatch

/-- The part of a create that has effects. -/
def claimCreate (operationId : Text) (base : CreateBase) : CreateProgram CreateResult := do
  match deviceGate (← perform .gate) with
  | some refusal => return refusal
  | none =>
    let leaseUntil := (← perform .clock) + createLeaseMs
    match ← perform (.claim (journalKey operationId) (base.attempt leaseUntil)) with
    | .unavailable => return .unavailable
    | .claimed revision => runCreate operationId base revision leaseUntil
    | .exists value revision => resumeCreate operationId base value revision

inductive ActorKind
  | human
  | agent
deriving DecidableEq, Repr

/-- A call of `createChannel`, with what it takes from its context. -/
structure CreateCall where
  actorKind : ActorKind
  actorOwnerId : Text
  principalOwnerId : Text
  maxRoomTitleBytes : Nat
  operationId : Text
  title : Option Text

def isIdentifier (value : Text) : Bool := (Decode.identifier (.string value) []).toOption.isSome

/-- The title as it is checked. -/
def CreateCall.titleOf (call : CreateCall) : Decode.Decoded (Option Text) :=
  Decode.nullable ((call.title.map Json.string).getD .null) fun value =>
    Decode.displayText value (lit "title") call.maxRoomTitleBytes

def createChannel (call : CreateCall) : CreateProgram CreateResult :=
  if call.actorKind ≠ .human ∨ call.actorOwnerId ≠ call.principalOwnerId
    then return .rejected .forbidden
  else if !isIdentifier call.operationId then return .rejected .invalid_request
  else match call.titleOf with
    | .error error =>
      return .rejected (if error.code = .too_long then .too_large else .invalid_request)
    | .ok title =>
      -- An empty title is not a title.
      claimCreate call.operationId ⟨call.principalOwnerId, if title = some [] then none else title⟩

/-! ## Callers -/

/-- Time passes, or a `createRoom` call makes its room, which it does before it settles and before
its lease ends. -/
inductive WorldEvent
  | elapse (ms : Nat)
  | land (tag : Nat) (room : ChannelSummary)

def happens : WorldEvent → World → Option World
  | .elapse ms, world => some { world with now := world.now + ms }
  | .land tag room, world =>
    match world.calls tag with
    | none => none
    | some call =>
      -- A call that is under way makes its room before its lease ends, and only once.
      if call.settled = false ∧ call.landed = none ∧ world.now < call.leaseUntil then
        some { world with
          calls := Function.update world.calls tag (some { call with landed := some room.roomId })
          rooms := world.rooms ++ [(call.operationId, room)] }
      else none

abbrev createService : Service where
  Calls := ⟨CreateCall, fun _ => CreateResult⟩
  Effects := createEffects
  Store := World
  Choice := CreateChoice
  body := createChannel
  exec := fun tag _ => execCreate tag
  Event := WorldEvent
  outside := happens

end Khala.ChannelCreate
