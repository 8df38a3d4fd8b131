import Khala.Contracts.LocalEvent
import Khala.Contracts.RenameEvent
import Khala.Framing.Bisect
import Khala.Js.Map

/-! The store of local channels: a channel in memory beside its log, what is written to both, and
the two ways to read a channel. Rooms do not touch each other's channels, so one room is modelled.
-/

namespace Khala.Local

open Js Decode

/-- A channel in memory. -/
structure Channel where
  roomId : Text
  /-- The events of the log, in its order. -/
  events : List LocalEvent
  byEventId : Map Text LocalEvent
  /-- Events by sender and transaction identifier. -/
  byTxn : Map Text LocalEvent
  /-- The latest membership event of each user, with the number of their first. -/
  lastMember : Map Text (LocalEvent × Nat)
  /-- The content of the membership event before one, by its identifier. -/
  previousMembers : Map Text Members
  harnesses : Map Text Text
  name : Text
  operationId : Option Text
  ownerName : Option Text
  /-- `validBytes`, in complete lines: what the next write keeps of the log. -/
  validLines : Option Nat

def makeChannel (roomId : Text) : Channel :=
  ⟨roomId, [], Map.empty, Map.empty, Map.empty, Map.empty, Map.empty, [], none, none, none⟩

def Channel.lastSeq (channel : Channel) : Nat := (channel.events.getLast?.map (·.seq)).getD 0

/-- `content.user`, which every membership event has. -/
def userOf (content : Members) : Text := (textField content (lit "user")).getD []

/-- The key that a sender's transaction is found under. -/
def txnKey (sender txnId : Text) : Text := sender ++ 0 :: txnId

/-- What the event adds to the indexes. -/
def Channel.indexMember (channel : Channel) (event : LocalEvent) : Channel :=
  let user := userOf event.content
  let last := channel.lastMember.get user
  { channel with
    previousMembers := match last with
      | some (previous, _) => channel.previousMembers.set event.eventId previous.content
      | none => channel.previousMembers
    lastMember := channel.lastMember.set user (event, (last.map (·.2)).getD event.seq) }

def Channel.indexEvent (channel : Channel) (event : LocalEvent) : Channel :=
  let indexed := { channel with
    events := channel.events ++ [event]
    byEventId := channel.byEventId.set event.eventId event
    -- An event without a transaction identifier is found by its own alone.
    byTxn := match event.txnId with
      | some txnId => channel.byTxn.set (txnKey event.sender txnId) event
      | none => channel.byTxn }
  match event.type with
  -- The creation names the channel and tells of the operation that made it.
  | .create =>
    { indexed with
      name := (textField event.content (lit "name")).getD []
      operationId := (textField event.content (lit "operationId")).or channel.operationId }
  | .name => { indexed with name := (textField event.content (lit "name")).getD [] }
  -- A membership event has indexes of its own.
  | .member => indexed.indexMember event
  -- The other events only stand in the list.
  | .message | .channelEvent | .listeningMode => indexed

/-! ## Writing -/

structure AppendInput where
  type : LocalEventType
  sender : Text
  txnId : Option Text
  content : Members

/-- `LEGACY_HARNESSES`. -/
def legacyHarnesses : List Text := [lit "claude", lit "codex", lit "cursor"]

def removeField (content : Members) (key : Text) : Members :=
  content.filter fun member => member.1 ≠ key

/-- The harness of a membership event is kept outside the log: the content in memory, the content on
the line, and the harnesses after it. Nothing is written for a harness that is none. -/
def placeHarness (harnesses : Map Text Text) (content : Members) :
    Option (Members × Members × Map Text Text) :=
  let user := userOf content
  -- A harness is kept in a file beside the log, unless it is one that older versions wrote.
  match lookup content (lit "harness") with
  | some (.string harness) =>
    if harness ∉ legacyHarnesses then
      if isHarness harness then
        some (content, removeField content (lit "harness"), harnesses.set user harness) else none
    else some (content, content, harnesses.delete user)
  -- Anything but a text is refused.
  | some _ => none
  | none =>
    match harnesses.get user with
    -- A member that has a harness keeps it.
    | some harness => some (content ++ [(lit "harness", Json.string harness)], content, harnesses)
    | none => some (content, content, harnesses)

/-- Where a write stops. -/
inductive WriteFault
  /-- The file of the harnesses is not written. -/
  | harness
  /-- The end of the log is not cut off. -/
  | truncate
  /-- The log is not opened. -/
  | open_
  /-- The line is not written as a whole, or is and the call fails. -/
  | line (landed : Bool)

/-- A channel, the complete lines of its log, and how many event identifiers were drawn so far. -/
structure Room where
  lines : List Json
  channel : Channel
  drawn : Nat

/-- What stays of the log when a write cuts off what an earlier one left. -/
def Room.keptLines (room : Room) : List Json :=
  match room.channel.validLines with
  | some kept => room.lines.take kept
  | none => room.lines

variable (ids : Nat → Text)

/-- `writeEvent`: the event that was stored, and the room after it. -/
def Room.writeEvent (room : Room) (eventInput : AppendInput) (ts : Nat)
    (fault : Option WriteFault) :
    Room × Option LocalEvent :=
  let drawn := room.drawn + 1
  let event : LocalEvent :=
    ⟨room.channel.lastSeq + 1, ids room.drawn, room.channel.roomId, eventInput.type,
    eventInput.sender, ts, eventInput.txnId, eventInput.content, none⟩
  -- Only a membership event says something of a harness.
  let placed := if event.type = .member then placeHarness room.channel.harnesses event.content
    else some (event.content, event.content, room.channel.harnesses)
  match placed with
  -- Nothing is written, but the identifier is drawn.
  | none => ({ room with drawn }, none)
  | some (inMemory, onLine, harnesses) =>
    let stored := { event with content := inMemory }
    let line := { event with content := onLine }.toJson
    let channel := { room.channel with harnesses }
    -- Each fault leaves the log at another point.
    match fault with
    | some .harness => ({ room with drawn }, none)
    | some .truncate => ({ room with channel, drawn }, none)
    | some .open_ => (⟨room.keptLines, { channel with validLines := none }, drawn⟩, none)
    -- A line that failed is cut off by the next write, whether it landed or not.
    | some (.line landed) =>
      (⟨room.keptLines ++ (if landed then [line] else []),
        { channel with validLines := some room.keptLines.length }, drawn⟩, none)
    | none => (⟨room.keptLines ++ [line], { channel with validLines := none }.indexEvent stored,
      drawn⟩, some stored)

/-- `createChannel`: the two first events of a room. When one of them fails, the room is not
registered. -/
def createChannel (roomId name ownerUsername : Text) (operationId : Option Text)
    (drawn ts ts' : Nat) (fault fault' : Option WriteFault) : Room :=
  let made : Room := ⟨[], makeChannel roomId, drawn⟩
  -- The first line is the creation, and the second the owner's membership.
  match made.writeEvent ids ⟨.create, localOwnerUserId, none, [(lit "name", .string name),
      (lit "createdBy", .string localOwnerUserId)]
        ++ (operationId.map fun operationId => (lit "operationId", .string operationId)).toList⟩ ts
          fault with
  -- Without a creation there is no owner's line.
  | (room, none) => room
  | (room, some _) =>
    (room.writeEvent ids ⟨.member, localOwnerUserId, none, [(lit "user", .string localOwnerUserId),
      (lit "membership", .string (lit "join")), (lit "displayname", .string ownerUsername),
      (lit "kind", .string (lit "human"))]⟩ ts' fault').1

/-- `append`: a sender's transaction is written once. -/
def Room.append (room : Room) (eventInput : AppendInput) (ts : Nat) (fault : Option WriteFault) :
    Room × Option LocalEvent :=
  match eventInput.txnId.bind fun txnId =>
    room.channel.byTxn.get (txnKey eventInput.sender txnId) with
  | some existing => (room, some existing)
  | none => room.writeEvent ids eventInput ts fault

/-- The owner's membership in the channel. -/
def Channel.ownerMembership (channel : Channel) : Option Text :=
  (channel.lastMember.get localOwnerUserId).map fun last =>
    (textField last.1.content (lit "membership")).getD []

/-- `setOwnerChannelName`: a changed name shows as a membership event. -/
def Room.setOwnerChannelName (room : Room) (ownerUsername : Text) (name : Option Text) (ts : Nat)
    (fault : Option WriteFault) :
    Room × Option LocalEvent :=
  let before := room.channel.ownerName.getD ownerUsername
  let after := name.getD ownerUsername
  let named := { room with channel := { room.channel with ownerName := name } }
  -- An owner who is no member is renamed in the room's file alone.
  match room.channel.ownerMembership with
  | none => (named, none)
  | some membership =>
    -- The same name is not announced again.
    if before = after then (named, none)
    else named.writeEvent ids ⟨.member, localOwnerUserId, none,
      [(lit "user", .string localOwnerUserId),
      (lit "membership", .string membership), (lit "displayname", .string after),
      (lit "kind", .string (lit "human"))]⟩ ts fault

/-! ## Opening -/

/-- A membership event read from the log has its harness from the other file, when the line has
none. -/
def withHarness (harnesses : Map Text Text) (event : LocalEvent) : LocalEvent :=
  match event.type, lookup event.content (lit "harness"), harnesses.get (userOf event.content) with
  | .member, none, some harness =>
    { event with content := event.content ++ [(lit "harness", Json.string harness)] }
  | _, _, _ => event

/-- One line of the log; what is no event of the channel's future is skipped. -/
def Channel.readLine (channel : Channel) (line : Json) : Channel :=
  match decodeLocalEvent line with
  | .error _ => channel
  | .ok event =>
    if event.roomId ≠ channel.roomId ∨ event.seq ≤ channel.lastSeq then channel
    else channel.indexEvent (withHarness channel.harnesses event)

/-- The channel that the log is read into; a log that does not begin with the room's creation is
left alone. `harnesses` and `ownerName` are what the other files hold, `torn` says whether bytes
follow the last line. -/
def openChannel (roomId : Text) (lines : List Json) (harnesses : Map Text Text)
    (ownerName : Option Text) (torn : Bool) :
    Option Channel :=
  let empty :=
    { makeChannel roomId with harnesses, validLines := if torn then some lines.length else none }
  let channel := lines.foldl Channel.readLine empty
  if channel.events.head?.map (·.type) = some .create then some { channel with ownerName } else none

/-! ## Reading -/

/-- `eventsAfter`: at most `limit` events with larger numbers, membership events with the content
before them. -/
def Channel.eventsAfter (channel : Channel) (after limit : Nat) : List LocalEvent :=
  let size := channel.events.length
  let lo := Bisect.firstFrom (fun mid => (channel.events[mid]?).any (·.seq ≤ after)) size 0 size
  ((channel.events.drop lo).take limit).map fun event =>
    match channel.previousMembers.get event.eventId with
    | some previousContent => { event with previousContent := some previousContent }
    | none => event

structure HistoryPage where
  events : List LocalEvent
  nextBefore : Option Text

/-- What a page is cut from: the messages, the channel events and the renames before the cutoff. -/
def candidates (cutoff : Option Nat) : Map Text Members → List LocalEvent → List LocalEvent
  | _, [] => []
  | previousMembers, event :: rest =>
    -- The page ends where the cursor says.
    if cutoff.any (· ≤ event.seq) then []
    else match event.type with
      | .member =>
        -- A membership event is shown as a rename, when it is one.
        let user := userOf event.content
        let later := candidates cutoff (previousMembers.set user event.content) rest
        match memberRenameContent event.content (previousMembers.get user) with
        | some content => { event with type := .channelEvent, content := content.members } :: later
        | none => later
      | .message | .channelEvent => event :: candidates cutoff previousMembers rest
      -- The other events are not shown.
      | .create | .name | .listeningMode => candidates cutoff previousMembers rest

/-- The last `limit` of the candidates. -/
def Channel.page (channel : Channel) (cutoff : Option Nat) (limit : Nat) : HistoryPage :=
  let candidates := candidates cutoff Map.empty channel.events
  let events := candidates.drop (candidates.length - limit)
  ⟨events, if events.length < candidates.length then events.head?.map (·.eventId) else none⟩

/-- `history`. -/
def Channel.history (channel : Channel) (before : Option Text) (limit : Nat) : HistoryPage :=
  if limit = 0 then ⟨[], none⟩
  else match before with
    | none => channel.page none limit
    | some before =>
      match channel.byEventId.get before with
      | some event => channel.page (some event.seq) limit
      | none => ⟨[], none⟩

end Khala.Local
