import Khala.Contracts.Decode
import Khala.Js.Json

/-! Events of a local channel, and the reader of a line of its log. -/

namespace Khala.Local

open Js Decode

inductive LocalEventType
  | create | name | member | message | channelEvent | listeningMode
deriving DecidableEq

/-- The types by the names they are written with. -/
def localEventTypes : List (Text × LocalEventType) :=
  [(lit "m.room.create", .create), (lit "m.room.name", .name), (lit "m.room.member", .member),
    (lit "m.room.message", .message), (lit "com.khala.event.v1", .channelEvent),
    (lit "com.khala.listening_mode.v1", .listeningMode)]

def LocalEventType.text : LocalEventType → Text
  | .create => lit "m.room.create"
  | .name => lit "m.room.name"
  | .member => lit "m.room.member"
  | .message => lit "m.room.message"
  | .channelEvent => lit "com.khala.event.v1"
  | .listeningMode => lit "com.khala.listening_mode.v1"

structure LocalEvent where
  /-- Strictly increasing in its channel. -/
  seq : Nat
  eventId : Text
  roomId : Text
  type : LocalEventType
  sender : Text
  ts : Nat
  /-- The transaction identifier of its sender, if it was sent with one. -/
  txnId : Option Text
  content : Members
  previousContent : Option Members

/-- The line that the log holds for an event. -/
def LocalEvent.toJson (event : LocalEvent) : Json :=
  .object ([(lit "seq", Json.number (natNumber event.seq)), (lit "eventId", .string event.eventId),
    (lit "roomId", .string event.roomId), (lit "type", .string event.type.text),
    (lit "sender", .string event.sender), (lit "ts", .number (natNumber event.ts))]
    ++ (event.txnId.map fun txnId => (lit "txnId", .string txnId)).toList
    ++ [(lit "content", Json.object event.content)])

/-! ## Identifiers -/

/-- The units of base64url. -/
def isBase64Unit (u : CodeUnit) : Bool :=
  (48 ≤ u && u ≤ 57) || (65 ≤ u && u ≤ 90) || (97 ≤ u && u ≤ 122) || u == 45 || u == 95

def localOwnerUserId : Text := lit "@khala_owner:local"

def isLocalRoomId (value : Text) : Bool :=
  value.length == 29 && value.take 1 == lit "!" && ((value.drop 1).take 22).all isBase64Unit
    && value.drop 23 == lit ":local"

def isLocalAgentUserId (value : Text) : Bool :=
  value.length == 21 && value.take 7 == lit "@agent-"
    && ((value.drop 7).take 8).all (fun u => isDigit u || (97 ≤ u && u ≤ 102))
      && value.drop 15 == lit ":local"

def isLocalUserId (value : Text) : Bool := value == localOwnerUserId || isLocalAgentUserId value

def isLocalEventId (value : Text) : Bool :=
  value.length == 23 && value.take 1 == lit "$" && (value.drop 1).all isBase64Unit

def isLocalTxnId (value : Text) : Bool :=
  1 ≤ value.length && value.length ≤ 64 && value.all fun u => isBase64Unit u || u == 46

/-- An identifier of one of these shapes. -/
def readId (shape : Text → Bool) (input : Json) (path : Text) : Decoded Text := do
  let value ← identifier input path
  require (shape value) path .invalid_value
  return value

def readLocalRoomId : Json → Text → Decoded Text := readId isLocalRoomId

def readLocalUserId : Json → Text → Decoded Text := readId isLocalUserId

def readLocalEventId : Json → Text → Decoded Text := readId isLocalEventId

def readLocalTxnId : Json → Text → Decoded Text := readId isLocalTxnId

/-! ## Contents -/

/-- `M1_LABEL_MAX_BYTES`. -/
def labelMaxBytes : Nat := 512

/-- `LOCAL_CHANNEL_NAME_MAX_CHARS`. -/
def channelNameMaxChars : Nat := 64

/-- `LOCAL_CONTENT_MAX_BYTES`. -/
def contentMaxBytes : Nat := 32768

/-- `LOCAL_BODY_MAX_CHARS`. -/
def bodyMaxChars : Nat := 8000

def displayName (input : Json) (path : Text) : Decoded Text := do
  let value ← displayText input path labelMaxBytes
  require (!value.isEmpty) path .empty
  return value

def channelName (input : Json) (path : Text) : Decoded Text := do
  let value ← displayName input path
  require ((codePoints value).length ≤ channelNameMaxChars) path .too_long
  require (value == trim value) path .invalid_value
  return value

/-- `HARNESS_ID`. -/
def isHarness : Text → Bool
  | [] => false
  | first :: rest => (97 ≤ first && first ≤ 122) && 1 ≤ rest.length && rest.length ≤ 23
    && rest.all fun u => (97 ≤ u && u ≤ 122) || isDigit u || u == 45

def readHarness (input : Json) (path : Text) : Decoded Text :=
  match input with
  | .string value => do
    require (isHarness value) path .invalid_value
    return value
  | _ => fail path .wrong_type

/-- The member under `key`, when the object has one, as `read` returns it. -/
def optionalField (input : Json) (members : Members) (path key : Text)
    (read : Json → Text → Decoded Text) : Decoded Members :=
  if has input key then do
    let value ← read (field members key) (joinPath path key)
    return [(key, .string value)]
  else return []

def readCreateContent (input : Json) (path : Text) : Decoded Members := do
  let members ← record input path [lit "name", lit "createdBy"] [lit "operationId"]
  let name ← channelName (field members (lit "name")) (joinPath path (lit "name"))
  let createdBy ← readLocalUserId (field members (lit "createdBy"))
    (joinPath path (lit "createdBy"))
  let operationId ← optionalField input members path (lit "operationId") readLocalTxnId
  return [(lit "name", Json.string name), (lit "createdBy", .string createdBy)] ++ operationId

def readNameContent (input : Json) (path : Text) : Decoded Members := do
  let members ← object input path [lit "name"]
  let name ← channelName (field members (lit "name")) (joinPath path (lit "name"))
  return [(lit "name", .string name)]

/-- One of the given words. -/
def oneOf (words : List Text) (input : Json) (path : Text) : Decoded Text :=
  literal input path (words.map fun word => (word, word))

/-- The member key of an agent's listening mode. -/
def listeningModeKey : Text := lit "com.khala.listening_mode"

/-- A person has neither a harness nor a listening mode. -/
def withoutAgentKeys (input : Json) (path kind : Text) : Decoded Unit := do
  require (!(kind == lit "human" && has input (lit "harness")))
    (joinPath path (lit "harness")) .invalid_value
  require (!(kind == lit "human" && has input listeningModeKey))
    (joinPath path listeningModeKey) .invalid_value

def readMemberContent (input : Json) (path : Text) : Decoded Members := do
  let members ← record input path [lit "user", lit "membership", lit "displayname", lit "kind"]
    [lit "harness", lit "invitedBy", listeningModeKey]
  let at_ (key : Text) : Text := joinPath path key
  let kind ← oneOf [lit "human", lit "agent"] (field members (lit "kind")) (at_ (lit "kind"))
  -- Only an agent has a harness, an inviter and a mode.
  withoutAgentKeys input path kind
  let user ← readLocalUserId (field members (lit "user")) (at_ (lit "user"))
  let membership ← oneOf [lit "invite", lit "join", lit "leave"] (field members (lit "membership"))
    (at_ (lit "membership"))
  let displayname ← displayName (field members (lit "displayname")) (at_ (lit "displayname"))
  let harness ← optionalField input members path (lit "harness") readHarness
  let invitedBy ← optionalField input members path (lit "invitedBy") readLocalUserId
  let mode ← optionalField input members path listeningModeKey
    (oneOf [lit "steer", lit "sync", lit "async", lit "mute"])
  -- The content has the fields that were given, in one order.
  return [(lit "user", Json.string user), (lit "membership", .string membership),
    (lit "displayname", .string displayname), (lit "kind", .string kind)] ++ harness
      ++ invitedBy ++ mode

def contentObject (input : Json) (path : Text) : Decoded Members :=
  match input with
  | .object members => do
    require (utf8Length (stringify input) ≤ contentMaxBytes) path .too_long
    return members
  | _ => fail path .not_object

/-- What a message's content has to hold. -/
def checkMessage (content : Members) (path : Text) : Decoded Unit := do
  let _ ← oneOf [lit "m.text", lit "m.notice"] (field content (lit "msgtype"))
    (path ++ lit ".msgtype")
  let body ← text (field content (lit "body")) (path ++ lit ".body") contentMaxBytes
  require (!body.isEmpty) (path ++ lit ".body") .empty
  require (body.length ≤ bodyMaxChars) (path ++ lit ".body") .too_long

def readContent (input : Json) (path : Text) (type : LocalEventType) : Decoded Members :=
  match type with
  | .create => readCreateContent input path
  | .name => readNameContent input path
  | .member => readMemberContent input path
  | .message => do
    let content ← contentObject input path
    checkMessage content path
    return content
  -- Such content is kept as it is.
  | .channelEvent | .listeningMode => contentObject input path

/-! ## Events -/

def seqNumber (input : Json) (path : Text) : Decoded Nat := do
  let value ← safeInteger input path
  require (value != 0) path .invalid_value
  return value

/-- The value under `key`, when the object has one. -/
def optionalValue {α : Type} (input : Json) (members : Members) (path key : Text)
    (read : Json → Text → Decoded α) :
    Decoded (Option α) :=
  if has input key then some <$> read (field members key) (joinPath path key) else return none

def readEvent (input : Json) (path : Text) : Decoded LocalEvent := do
  let members ← record input path
    [lit "seq", lit "eventId", lit "roomId", lit "type", lit "sender", lit "ts", lit "content"]
    [lit "txnId", lit "previousContent"]
  let at_ (key : Text) : Text := joinPath path key
  -- The type decides how the content is read.
  let type ← literal (field members (lit "type")) (at_ (lit "type")) localEventTypes
  let seq ← seqNumber (field members (lit "seq")) (at_ (lit "seq"))
  let eventId ← readLocalEventId (field members (lit "eventId")) (at_ (lit "eventId"))
  let roomId ← readLocalRoomId (field members (lit "roomId")) (at_ (lit "roomId"))
  let sender ← readLocalUserId (field members (lit "sender")) (at_ (lit "sender"))
  let ts ← safeInteger (field members (lit "ts")) (at_ (lit "ts"))
  let txnId ← optionalValue input members path (lit "txnId") readLocalTxnId
  let content ← readContent (field members (lit "content")) (at_ (lit "content")) type
  let previousContent ← optionalValue input members path (lit "previousContent") readMemberContent
  return ⟨seq, eventId, roomId, type, sender, ts, txnId, content, previousContent⟩

def decodeLocalEvent (input : Json) : Decoded LocalEvent := readEvent input []

/-! ## What is read -/

/-- An identifier is read as it is written. -/
theorem readId_eq_ok {shape : Text → Bool} {input : Json} {path value : Text}
    (read : readId shape input path = .ok value) : input = .string value := by
  -- Each reader on the way hands on the string that it checked.
  obtain ⟨read', identified, returned⟩ := bind_eq_ok.mp read
  obtain ⟨labelled, isLabel, afterLabel⟩ := bind_eq_ok.mp identified
  obtain ⟨written, isText, afterText⟩ := bind_eq_ok.mp isLabel
  obtain ⟨_, _, same⟩ := bind_eq_ok.mp returned
  obtain ⟨_, _, same'⟩ := bind_eq_ok.mp afterLabel
  obtain ⟨_, _, same''⟩ := bind_eq_ok.mp afterText
  cases same
  cases same'
  cases same''
  cases input with
  | string s =>
    simp only [text, fail] at isText
    grind
  | null => cases isText
  | bool _ => cases isText
  | number _ => cases isText
  | array _ => cases isText
  | object _ => cases isText

/-- A line is read under the identifier that it was written with. -/
theorem eventId_decodeLocalEvent {event decoded : LocalEvent}
    (read : decodeLocalEvent event.toJson = .ok decoded) : decoded.eventId = event.eventId := by
  -- The identifier is read as it was written, whatever the other fields are.
  obtain ⟨members, isRecord, rest⟩ := bind_eq_ok.mp read
  obtain ⟨type, _, rest⟩ := bind_eq_ok.mp rest
  obtain ⟨seq, _, rest⟩ := bind_eq_ok.mp rest
  obtain ⟨eventId, isId, rest⟩ := bind_eq_ok.mp rest
  obtain ⟨roomId, _, rest⟩ := bind_eq_ok.mp rest
  obtain ⟨sender, _, rest⟩ := bind_eq_ok.mp rest
  obtain ⟨ts, _, rest⟩ := bind_eq_ok.mp rest
  obtain ⟨txnId, _, rest⟩ := bind_eq_ok.mp rest
  obtain ⟨content, _, rest⟩ := bind_eq_ok.mp rest
  obtain ⟨previousContent, _, same⟩ := bind_eq_ok.mp rest
  cases same
  -- The field holds the identifier of the event.
  have written : field members (lit "eventId") = .string event.eventId := by
    simp only [record, object, LocalEvent.toJson] at isRecord
    split at isRecord
    · cases isRecord
    · split at isRecord
      · cases isRecord
      · cases isRecord
        rfl
  have found := readId_eq_ok isId
  rw [written] at found
  cases found
  rfl

end Khala.Local
