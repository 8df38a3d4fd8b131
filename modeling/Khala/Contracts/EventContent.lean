import Khala.Contracts.TextReaders
import Khala.Contracts.Timestamp
import Khala.Js.Map

/-! The content of a channel event: how it is decoded, shown on one line and encoded. -/

namespace Khala.Event

open Js Decode

/-- `ChannelEventSubject`. -/
structure Subject where
  ticket : Option Text
  pr : Option Nat
  branch : Option Text
  repo : Option Text
  sha : Option Text

/-- `ChannelEventSource`. -/
structure Source where
  system : Text
  topic : Option Text
  eventId : Option Text

/-- `ChannelEventContent`, whose version is the only one there is. -/
structure Content where
  kind : Text
  summary : Text
  body : Text
  status : Option ChannelEventStatus
  subject : Option Subject
  actor : Option Text
  url : Option Text
  occurredAt : Option Text
  source : Option Source
  key : Option Text
  data : Option Members

/-- A member that is only there when it has a value. -/
def member (key : Text) (value : Option Json) : Members :=
  (value.map fun value => (key, value)).toList

def Subject.members (subject : Subject) : Members :=
  member (lit "ticket") (subject.ticket.map .string) ++ member (lit "pr")
    (subject.pr.map fun pr => .number (natNumber pr))
    ++ member (lit "branch") (subject.branch.map .string) ++ member (lit "repo")
      (subject.repo.map .string)
    ++ member (lit "sha") (subject.sha.map .string)

def Source.members (source : Source) : Members :=
  (lit "system", .string source.system)
    :: (member (lit "topic") (source.topic.map .string) ++ member (lit "event_id")
      (source.eventId.map .string))

/-- The members of a decoded content, in the order in which the decoder returns them. -/
def Content.members (content : Content) : Members :=
  [(lit "v", Json.number (natNumber 1)), (lit "kind", .string content.kind),
    (lit "summary", .string content.summary),
    (lit "body", .string content.body)]
    ++ member (lit "status") (content.status.map fun status => .string status.name)
    ++ member (lit "subject") (content.subject.map fun subject => .object subject.members)
    ++ member (lit "actor") (content.actor.map .string) ++ member (lit "url")
      (content.url.map .string)
    ++ member (lit "occurred_at") (content.occurredAt.map .string)
    ++ member (lit "source") (content.source.map fun source => .object source.members)
    ++ member (lit "key") (content.key.map .string) ++ member (lit "data")
      (content.data.map .object)

def Content.toJson (content : Content) : Json := .object content.members

/-! ## Decoding -/

/-- `record`: an object with any members. -/
def record (input : Json) (path : Text) : Decoded Members :=
  match input with
  | .object members => .ok members
  | _ => fail path .not_object

/-- A member that has to be there. -/
def field (members : Members) (path key : Text) : Decoded Json :=
  match lookup members key with
  | some value => .ok value
  | none => fail (joinPath path key) .missing_field

/-- A member that may be absent. -/
def optional {α : Type} (members : Members) (key : Text) (read : Json → Decoded α) :
    Decoded (Option α) :=
  match lookup members key with
  | some value => some <$> read value
  | none => .ok none

/-- A value that has to match a pattern. -/
def matching (value path : Text) (pattern : Text → Bool) : Decoded Text := do
  require (pattern value) path .invalid_value
  return value

def isRepoUnit (u : CodeUnit) : Bool :=
  (65 ≤ u && u ≤ 90) || (97 ≤ u && u ≤ 122) || isDigit u || u == 95 || u == 46 || u == 45

/-- The pattern of a repository: an owner and a name around a slash. -/
def isRepo (value : Text) : Bool :=
  match value.splitOn 47 with
  | [owner, name] => !owner.isEmpty && owner.all isRepoUnit && !name.isEmpty && name.all isRepoUnit
  | _ => false

/-- The pattern of a commit: 7 to 64 lower-case hexadecimal digits. -/
def isSha (value : Text) : Bool :=
  7 ≤ value.length && value.length ≤ 64 && value.all fun u => isDigit u || (97 ≤ u && u ≤ 102)

def readPr (input : Json) (path : Text) : Decoded Nat := do
  let pr ← safeInteger input path
  require (pr ≠ 0) path .invalid_value
  return pr

def readBranch (input : Json) (path : Text) : Decoded Text := do
  let branch ← label input path 255
  let branch ← nonempty branch path
  require (!(lit "refs/").isPrefixOf branch) path .invalid_value
  return branch

def readMatching (input : Json) (path : Text) (maxBytes : Nat) (pattern : Text → Bool) :
    Decoded Text :=
  do
  let value ← label input path maxBytes
  matching value path pattern

def readSubject (input : Json) : Decoded Subject := do
  let path := lit "subject"
  let r ← record input path
  let pr ← optional r (lit "pr") fun value => readPr value (joinPath path (lit "pr"))
  let branch ← optional r (lit "branch") fun value =>
    readBranch value (joinPath path (lit "branch"))
  let ticket ← optional r (lit "ticket") fun value =>
    display value (joinPath path (lit "ticket")) 256 64
  let repo ← optional r (lit "repo") fun value =>
    readMatching value (joinPath path (lit "repo")) 140 isRepo
  let sha ← optional r (lit "sha") fun value =>
    readMatching value (joinPath path (lit "sha")) 64 isSha
  return ⟨ticket, pr, branch, repo, sha⟩

def readNonempty (input : Json) (path : Text) (maxBytes : Nat) : Decoded Text := do
  let value ← label input path maxBytes
  nonempty value path

def readSource (input : Json) : Decoded Source := do
  let path := lit "source"
  let r ← record input path
  let system ← field r path (lit "system")
  let system ← readNonempty system (joinPath path (lit "system")) 32
  let topic ← optional r (lit "topic") fun value => label value (joinPath path (lit "topic")) 256
  let eventId ← optional r (lit "event_id") fun value =>
    label value (joinPath path (lit "event_id")) 64
  return ⟨system, topic, eventId⟩

/-- `COORDINATION_KINDS`. -/
def coordinationKinds : List Text :=
  [lit "handoff", lit "handoff_ack", lit "verdict", lit "claim", lit "release", lit "note"]

def isCoordinationKind (kind : Text) : Bool := coordinationKinds.contains kind

/-- The fields of the payload of a coordination kind. -/
def dataFields (kind : Text) : List Text :=
  if kind = lit "handoff" then [lit "ticket", lit "from", lit "to", lit "reason", lit "state"]
  else if kind = lit "handoff_ack" then [lit "ticket"]
  else if kind = lit "verdict" then [lit "pr", lit "verdict", lit "reason"]
  else if kind = lit "note" then [lit "key", lit "value"]
  else [lit "key"]

/-- One field of a payload. -/
def readDatum (value : Json) (path key : Text) : Decoded Json :=
  if key = lit "pr" then (fun pr => .number (natNumber pr)) <$> readPr value path
  else if key = lit "verdict" then
    literal value path [(lit "approved", .string (lit "approved")),
      (lit "changes_requested", .string (lit "changes_requested"))]
  else if key = lit "reason" then .string <$> display value path 800 200
  else if key = lit "key" then .string <$> readNonempty value path 128
  else if key = lit "value" then
    match value with
    -- An empty value clears the note.
    | .string [] => .ok (.string [])
    | _ => .string <$> display value path 800 200
  else .string <$> display value path 256 64

def readData (kind : Text) (input : Json) : Decoded Members := do
  let path := lit "data"
  let r ← object input path (dataFields kind)
  (dataFields kind).mapM fun key => do
    let value ← readDatum (Decode.field r key) (joinPath path key) key
    return (key, value)

/-- A field of a payload as a template shows it. -/
def shown (data : Members) (key : String) : Text :=
  match lookup data (lit key) with
  | some (.string value) => value
  | some (.number value) => value.text
  | _ => []

def coordinationSummary (kind : Text) (d : Members) : Text :=
  -- Each kind has a sentence of its own.
  if kind = lit "handoff" then
    lit "handoff " ++ shown d "ticket" ++ lit " " ++ shown d "from" ++ lit " → " ++ shown d "to"
      ++ lit " (" ++ shown d "state"
      ++ lit "): " ++ shown d "reason"
  else if kind = lit "handoff_ack" then lit "handoff " ++ shown d "ticket" ++ lit " acknowledged"
  else if kind = lit "verdict" then
    lit "PR #" ++ shown d "pr" ++ lit " " ++ (if shown d "verdict" = lit "approved"
      then lit "approved" else lit "changes requested")
      ++ lit ": " ++ shown d "reason"
  else if kind = lit "claim" then lit "claimed " ++ shown d "key"
  else if kind = lit "release" then lit "released " ++ shown d "key"
  -- What is left is a note, which may be a cleared one.
  else if shown d "value" = [] then lit "note " ++ shown d "key" ++ lit " cleared"
  else lit "note " ++ shown d "key" ++ lit " = " ++ shown d "value"

section

-- Whether a text parses as a URL whose protocol is `https:`.
variable (isHttps : Text → Bool)

def readUrl (input : Json) : Decoded Text :=
  match input with
  | .string s =>
    if utf8Length s > 2048 then fail (lit "url") .too_long
    else if isHttps s then .ok s
    else fail (lit "url") .invalid_value
  | _ => fail (lit "url") .wrong_type

def readKind (input : Json) : Decoded Text := do
  let kind ← readNonempty input (lit "kind") 128
  matching kind (lit "kind") isKind

def readSummary (input : Json) : Decoded Text := do
  let summary ← display input (lit "summary") 800 200
  require (trim summary ≠ []) (lit "summary") .empty
  return summary

/-- Older senders may use the kinds of coordination without a payload: such events stay plain
events, and the payload of a plain event is passed over. -/
def readPayload (r : Members) (kind : Text) : Decoded (Option Members) :=
  if isCoordinationKind kind then optional r (lit "data") (readData kind) else .ok none

/-- The content that the members of an object give. -/
def readFields (r : Members) : Decoded Content := do
  let v ← field r [] (lit "v")
  -- The fields are read in this order, so the first one that fails is named.
  version v (lit "v")
  let kind ← field r [] (lit "kind")
  let kind ← readKind kind
  let summary ← field r [] (lit "summary")
  let summary ← readSummary summary
  let body ← field r [] (lit "body")
  let body ← label body (lit "body") 1024
  let status ← optional r (lit "status") fun value =>
    literal value (lit "status") channelEventStatuses
  let subject ← optional r (lit "subject") readSubject
  let actor ← optional r (lit "actor") fun value => display value (lit "actor") 256 64
  let url ← optional r (lit "url") (readUrl isHttps)
  let occurredAt ← optional r (lit "occurred_at") fun value =>
    utcTimestamp value (lit "occurred_at")
  let source ← optional r (lit "source") readSource
  let key ← optional r (lit "key") fun value => readNonempty value (lit "key") 200
  -- The payload is read by the rules of its kind.
  let data ← readPayload r kind
  return ⟨kind, summary, body, status, subject, actor, url, occurredAt, source, key, data⟩

def decodeChannelEvent (raw : Json) : Decoded Content := do
  require (utf8Length (stringify raw) ≤ maxChannelEventBytes) [] .too_long
  let r ← record raw []
  readFields isHttps r

/-! ## Encoding -/

/-- A summary with what it is about before and after it. -/
def formatChannelEventLine (summary : Text) (subject : Option Subject) : Text :=
  let head :=
    match subject.bind (·.ticket) with
    | some ticket => if ticket = [] then summary else ticket ++ lit " " ++ summary
    | none => summary
  let tail := (subject.bind (·.branch)).orElse fun _ => (subject.bind (·.pr)).map fun pr =>
    lit "PR #" ++ decimal pr
  match tail with
  | some tail => if tail = [] then head else head ++ lit " · " ++ tail
  | none => head

/-- The event that is checked first: of its version, and without a body. -/
def unbodied (raw : Members) : Members :=
  Map.setEntry (lit "body") (.string []) (Map.setEntry (lit "v") (.number (natNumber 1)) raw)

/-- A summary that was derived, cut to the longest there may be. -/
def shortened (derived : Text) : Text :=
  if (codePoints derived).length > 200 then ((codePoints derived).take 199).flatten ++ lit "…"
    else derived

/-- Fills in what the payload says when the event does not. -/
def completed (raw : Members) (kind : Text) (data : Members) : Members :=
  let event := Map.setEntry (lit "data") (.object data) (unbodied raw)
  let event :=
    if (lookup raw (lit "summary")).isSome then event
    else Map.setEntry (lit "summary") (.string (shortened (coordinationSummary kind data))) event
  if (lookup raw (lit "status")).isSome ∨ kind ≠ lit "verdict" then event
  else Map.setEntry (lit "status")
    (.string (if shown data "verdict" = lit "approved" then lit "success" else lit "attention"))
    event

/-- An event of a kind without a payload must not have one. -/
def checkPlain (raw : Members) : Decoded Members := do
  require (lookup raw (lit "data")).isNone (lit "data") .invalid_value
  return unbodied raw

/-- A coordination event must have its payload. -/
def checkCoordination (raw : Members) (kind : Text) : Decoded Members := do
  let value ← field raw [] (lit "data")
  let data ← readData kind value
  return completed raw kind data

def checkInput (raw : Members) : Decoded Members :=
  match lookup raw (lit "kind") with
  | some (.string kind) => if isCoordinationKind kind then checkCoordination raw kind
    else checkPlain raw
  | _ => checkPlain raw

def encodeChannelEvent (input : Json) : Decoded Content := do
  let raw ← record input []
  let checked ← checkInput raw
  let decoded ← decodeChannelEvent isHttps (.object checked)
  decodeChannelEvent isHttps { decoded with body := formatChannelEventLine decoded.summary decoded.subject }.toJson

end

/-- `statusFor` of a kind. -/
def statusForKind (kind : Text) : ChannelEventStatus :=
  if [lit "ci.passed", lit "pr.merged", lit "agent.unblocked"].contains kind then .success
  else if kind = lit "ci.failed" then .failure
  else if [lit "pr.ready_for_review", lit "pr.parked_ready"].contains kind then .pending
  else if [lit "agent.paused", lit "agent.blocked", lit "agent.pause.request"].contains kind
    then .attention
  else if (lit "agent.attention.").isPrefixOf kind && !(lit ".resolved").isSuffixOf kind
    then .attention
  else .info

end Khala.Event
