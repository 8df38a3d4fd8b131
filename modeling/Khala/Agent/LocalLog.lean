import Khala.Agent.LocalStore
import Khala.Framing.Lines
import Khala.Js.JsonBytes

/-! The log of a local channel as a file of bytes: how a write cuts off what a failed one left and
adds its line, and how the file is read when the store is opened. -/

namespace Khala.Local

open Js Decode

/-- `'\n'` and its byte. -/
def newline : CodeUnit := 10

def newlineByte : UInt8 := 10

/-- A channel, the bytes of its log, and how many event identifiers were drawn so far. The channel's
own `validLines` is not used: `validBytes` is where the next write cuts the log. -/
structure LogRoom where
  log : List UInt8
  channel : Channel
  validBytes : Option Nat
  drawn : Nat

/-! ## Writing -/

/-- Where a write stops. -/
inductive LogFault
  /-- The file of the harnesses is not written. -/
  | harness
  /-- The end of the log is not cut off. -/
  | truncate
  /-- The log is not opened, or its size is not told. -/
  | open_
  /-- The line is not written, or not all of it, or the call fails after it. -/
  | line (bytes : Nat)

/-- `fs.truncate`: a file that is shorter is filled up. -/
def truncate (log : List UInt8) (length : Nat) : List UInt8 :=
  log.take length ++ List.replicate (length - log.length) 0

def LogRoom.truncated (room : LogRoom) : List UInt8 :=
  match room.validBytes with
  | some validBytes => truncate room.log validBytes
  | none => room.log

/-- The line of an event, with its end. -/
def lineBytes (event : LocalEvent) : List UInt8 := encodeUtf8 (stringify event.toJson ++ [newline])

/-- The contents of an event in memory and on its line, and the harnesses after it. -/
def Channel.place (channel : Channel) (event : LocalEvent) :
    Option (Members × Members × Map Text Text) :=
  if event.type = .member then placeHarness channel.harnesses event.content
  else some (event.content, event.content, channel.harnesses)

variable (ids : Nat → Text)

/-- The event that is written next. -/
def LogRoom.next (room : LogRoom) (eventInput : AppendInput) (ts : Nat) : LocalEvent :=
  ⟨room.channel.lastSeq + 1, ids room.drawn, room.channel.roomId, eventInput.type,
    eventInput.sender, ts, eventInput.txnId,
    eventInput.content, none⟩

/-- `writeEvent`: the event that was stored, and the room after it. -/
def LogRoom.writeEvent (room : LogRoom) (eventInput : AppendInput) (ts : Nat)
    (fault : Option LogFault) :
    LogRoom × Option LocalEvent :=
  let drawn := room.drawn + 1
  let event := room.next ids eventInput ts
  match room.channel.place event with
  -- The event is refused: nothing is written, but its identifier is drawn.
  | none => ({ room with drawn }, none)
  | some (inMemory, onLine, harnesses) =>
    let stored := { event with content := inMemory }
    let line := lineBytes { event with content := onLine }
    let channel := { room.channel with harnesses }
    match fault with
    -- Each fault leaves the log at another point.
    | some .harness => ({ room with drawn }, none)
    | some .truncate => ({ room with channel, drawn }, none)
    -- The cut of an unfinished line is made before the line is written.
    | some .open_ => (⟨room.truncated, channel, none, drawn⟩, none)
    -- A line that failed is cut off by the next write.
    | some (.line bytes) =>
      (⟨room.truncated ++ line.take bytes, channel, some room.truncated.length, drawn⟩, none)
    | none => (⟨room.truncated ++ line, channel.indexEvent stored, none, drawn⟩, some stored)

/-- `createChannel`: the two first events of a room. When one of them fails, the room is not
registered. -/
def createLog (roomId name ownerUsername : Text) (operationId : Option Text) (drawn ts ts' : Nat)
    (fault fault' : Option LogFault) : LogRoom :=
  let made : LogRoom := ⟨[], makeChannel roomId, none, drawn⟩
  -- The first line is the creation, and the second the owner's membership.
  match made.writeEvent ids ⟨.create, localOwnerUserId, none, [(lit "name", .string name),
      (lit "createdBy", .string localOwnerUserId)]
        ++ (operationId.map fun operationId => (lit "operationId", .string operationId)).toList⟩ ts
          fault with
  -- Without a creation there is no owner's line.
  | (room, none) => room
  | (room, some _) =>
    (room.writeEvent ids ⟨.member, localOwnerUserId, none, [(lit "user", .string localOwnerUserId),
      (lit "membership", .string (lit "join")), (lit "displayname", .string ownerUsername),
      (lit "kind", .string (lit "human"))]⟩ ts' fault').1

/-- `append`: a sender's transaction is written once. -/
def LogRoom.append (room : LogRoom) (eventInput : AppendInput) (ts : Nat)
    (fault : Option LogFault) :
    LogRoom × Option LocalEvent :=
  match eventInput.txnId.bind fun txnId =>
    room.channel.byTxn.get (txnKey eventInput.sender txnId) with
  | some existing => (room, some existing)
  | none => room.writeEvent ids eventInput ts fault

/-- `setOwnerChannelName`: a changed name shows as a membership event. -/
def LogRoom.setOwnerChannelName (room : LogRoom) (ownerUsername : Text) (name : Option Text)
    (ts : Nat) (fault : Option LogFault) : LogRoom × Option LocalEvent :=
  let before := room.channel.ownerName.getD ownerUsername
  let after := name.getD ownerUsername
  let named := { room with channel := { room.channel with ownerName := name } }
  -- An owner who is no member is renamed in the room's file alone.
  match room.channel.ownerMembership with
  | none => (named, none)
  | some membership =>
    -- The same name is not announced again.
    if before = after then (named, none)
    else named.writeEvent ids ⟨.member, localOwnerUserId, none,
      [(lit "user", .string localOwnerUserId),
      (lit "membership", .string membership), (lit "displayname", .string after),
      (lit "kind", .string (lit "human"))]⟩ ts fault

/-! ## Opening -/

/-- `buffer.lastIndexOf(0x0a) + 1`: how many bytes there are up to the last end of a line. -/
def completeBytes (log : List UInt8) : Nat := (log.reverse.dropWhile (· ≠ newlineByte)).length

/-- `text.split('\n')`. -/
def splitLines (text : Text) : List Text :=
  Framing.lines newline text ++ [Framing.unended newline text]

-- `JSON.parse`.
variable (parse : Text → Option Json)

/-- One line of the log; what does not parse is skipped. -/
def Channel.readText (channel : Channel) (line : Text) : Channel :=
  match parse line with
  | none => channel
  | some parsed => channel.readLine parsed

/-- The channel that the log is read into, and its `validBytes`; a log that does not begin with the
room's creation is left alone. -/
def openLog (roomId : Text) (log : List UInt8) (harnesses : Map Text Text)
    (ownerName : Option Text) :
    Option (Channel × Option Nat) :=
  let complete := completeBytes log
  let channel := (splitLines (decodeUtf8 (log.take complete))).foldl (Channel.readText parse)
    { makeChannel roomId with harnesses }
  if channel.events.head?.map (·.type) = some .create then
    some ({ channel with ownerName }, if complete < log.length then some complete else none)
  else none

end Khala.Local
