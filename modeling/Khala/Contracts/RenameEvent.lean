import Khala.Contracts.Decode
import Khala.Js.Json

/-! The channel event that a member's change of name shows as. -/

namespace Khala

open Js Decode

/-- `MAX_CHANNEL_EVENT_BYTES`. -/
def maxChannelEventBytes : Nat := 4096

/-- `CHANNEL_EVENT_STATUSES`. -/
inductive ChannelEventStatus
  | info | pending | success | failure | attention
deriving DecidableEq

def channelEventStatuses : List (Text × ChannelEventStatus) :=
  [(lit "info", .info), (lit "pending", .pending), (lit "success", .success),
    (lit "failure", .failure),
    (lit "attention", .attention)]

def ChannelEventStatus.name : ChannelEventStatus → Text
  | .info => lit "info"
  | .pending => lit "pending"
  | .success => lit "success"
  | .failure => lit "failure"
  | .attention => lit "attention"

/-- A free-form event with a status and a source that names a system; it has none of the other
optional fields. -/
structure PlainChannelEvent where
  kind : Text
  summary : Text
  body : Text
  status : ChannelEventStatus
  system : Text
deriving DecidableEq

/-- The members of the object that is checked and sent. -/
def PlainChannelEvent.members (event : PlainChannelEvent) : Members :=
  [(lit "v", .number (natNumber 1)), (lit "kind", .string event.kind),
    (lit "summary", .string event.summary), (lit "body", .string event.body),
    (lit "status", .string event.status.name),
      (lit "source", .object [(lit "system", .string event.system)])]

def nonempty (value path : Text) : Decoded Text := do
  require (!value.isEmpty) path .empty
  return value

def display (input : Json) (path : Text) (maxBytes maxPoints : Nat) : Decoded Text := do
  let value ← displayText input path maxBytes
  let value ← nonempty value path
  require ((codePoints value).length ≤ maxPoints) path .too_long
  return value

/-- The units of a kind between its dots. -/
def isKindUnit (u : CodeUnit) : Bool :=
  (97 ≤ u && u ≤ 122) || isDigit u || u == 95 || u == 45

/-- The pattern of a kind: parts that are not empty, joined by dots. -/
def isKind (value : Text) : Bool :=
  (value.splitOn 46).all fun part => !part.isEmpty && part.all isKindUnit

/-- `decodeChannelEvent` on such an event. -/
def decodeChannelEvent (event : PlainChannelEvent) : Decoded PlainChannelEvent := do
  -- The size is looked at before the fields are.
  require (utf8Length (stringify (.object event.members)) ≤ maxChannelEventBytes) [] .too_long
  let kind ← label (.string event.kind) (lit "kind") 128
  let kind ← nonempty kind (lit "kind")
  require (isKind kind) (lit "kind") .invalid_value
  let summary ← display (.string event.summary) (lit "summary") 800 200
  -- A summary of blanks alone says nothing.
  require (trim summary ≠ []) (lit "summary") .empty
  let body ← label (.string event.body) (lit "body") 1024
  let status ← literal (.string event.status.name) (lit "status") channelEventStatuses
  let system ← label (.string event.system) (lit "source.system") 32
  let system ← nonempty system (lit "source.system")
  return ⟨kind, summary, body, status, system⟩

/-- Of an event without a subject, the line is the summary. -/
def formatChannelEventLine (event : PlainChannelEvent) : Text := event.summary

/-- `encodeChannelEvent`, for a kind without a payload. -/
def encodeChannelEvent (kind summary : Text) (status : ChannelEventStatus) (system : Text) :
    Decoded PlainChannelEvent :=
  do
  let decoded ← decodeChannelEvent ⟨kind, summary, [], status, system⟩
  decodeChannelEvent { decoded with body := formatChannelEventLine decoded }

/-- The text under a key. -/
def textField (content : Members) (key : Text) : Option Text :=
  match lookup content key with
  | some (.string value) => some value
  | _ => none

/-- Join-to-join name changes, which exclude admissions, departures and mode echoes. -/
def memberRenameContent (content : Members) (previous : Option Members) :
    Option PlainChannelEvent :=
  match previous.bind fun previous => textField previous (lit "displayname"),
    textField content (lit "displayname") with
  | some oldName, some newName =>
    if (previous.bind fun previous => textField previous (lit "membership")) = some (lit "join")
        ∧ textField content (lit "membership") = some (lit "join")
        ∧ trim oldName ≠ [] ∧ trim newName ≠ [] ∧ oldName ≠ newName then
      (encodeChannelEvent (lit "member")
        (oldName ++ lit " is now " ++ newName) .info (lit "khala")).toOption
    else none
  | _, _ => none

end Khala
