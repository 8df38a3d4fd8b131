import Khala.Js.Map
import Khala.Js.Text

/-! The timeline that a channel shows: events from the server and own sends that it has not echoed
yet. -/

namespace Khala.Timeline

open Js

/-- A message may carry the transaction ID of the send it answers. -/
inductive EntryKind
  | channelEvent
  | message (clientTxnId : Option Text)
  | unavailable
deriving DecidableEq

/-- One event from the server, with what its row shows. -/
structure RemoteEntry (Row : Type) where
  eventId : Text
  kind : EntryKind
  row : Row
deriving DecidableEq

/-- An own send; the send response names its event. -/
structure SendItem (Row : Type) where
  clientTxnId : Text
  eventRef : Option Text
  row : Row

inductive TimelineEntry (Row : Type)
  | remote (entry : RemoteEntry Row)
  | localSend (clientTxnId : Text) (row : Row)

/-- Live state of one channel: events by event ID, own sends by transaction ID until their event is
named. -/
structure ChannelProjection (Row : Type) where
  remote : Map Text (RemoteEntry Row)
  ignored : List Text
  locals : Map Text Row
  revision : Nat

variable {Row : Type}

def ChannelProjection.initial : ChannelProjection Row := ⟨.empty, [], .empty, 0⟩

/-- Only a late decryption replaces what is there. -/
def supersedes (existing : Option (RemoteEntry Row)) (entry : RemoteEntry Row) : Bool :=
  match existing with
  | none => true
  | some existing => existing.kind = .unavailable ∧ entry.kind ≠ .unavailable

/-! ## Events from the server -/

/-- An ignored event loses its placeholder. -/
def ChannelProjection.ignore (state : ChannelProjection Row) (eventId : Text) :
    ChannelProjection Row where
  remote := if (state.remote.get eventId).any (·.kind = .unavailable)
    then state.remote.delete eventId else state.remote
  ignored := if eventId ∈ state.ignored then state.ignored else state.ignored ++ [eventId]
  locals := state.locals
  revision := state.revision

/-- An event that is new or decrypted now; it takes the place of the send that it answers. -/
def ChannelProjection.take (state : ChannelProjection Row) (entry : RemoteEntry Row) :
    ChannelProjection Row :=
  if entry.eventId ∈ state.ignored then state
  else if supersedes (state.remote.get entry.eventId) entry then
    { state with
      remote := state.remote.set entry.eventId entry
      locals := match entry.kind with
        | .message (some clientTxnId) => state.locals.delete clientTxnId
        | _ => state.locals }
  else state

/-- The places found so far, from the last entry to the first. -/
structure Placing (Row : Type) where
  successor : Option Text
  placed : List Text
  before : Map Text (List (RemoteEntry Row))
  tail : List (RemoteEntry Row)

def Placing.start : Placing Row := ⟨none, [], .empty, []⟩

/-- The new entries before a known event. -/
def Placing.bucket (placing : Placing Row) (eventId : Text) : List (RemoteEntry Row) :=
  (placing.before.get eventId).getD []

/-- A known event anchors the new ones before it; new events after the last known one are the tail.
-/
def place (knownIds : List Text) (remote : Map Text (RemoteEntry Row)) (entry : RemoteEntry Row)
    (placing : Placing Row) : Placing Row :=
  -- An entry that is known is what later entries come before.
  if entry.eventId ∈ knownIds then { placing with successor := some entry.eventId }
  else
    match remote.get entry.eventId with
    -- An entry without a row is left out.
    | none => placing
    | some found =>
      if entry.eventId ∈ placing.placed then placing
      else
        match placing.successor with
        -- Without a known entry after it, the row goes to the end.
        | none => { placing with placed := entry.eventId :: placing.placed,
                                 tail := found :: placing.tail }
        | some successor =>
          -- Otherwise the row goes before the known entry.
          { placing with
            placed := entry.eventId :: placing.placed
            before := placing.before.set successor (found :: placing.bucket successor) }

/-- The map that holds some entries under their event IDs. -/
def byEventId (entries : List (RemoteEntry Row)) : Map Text (RemoteEntry Row) :=
  entries.foldl (fun remote entry => remote.set entry.eventId entry) .empty

/-- Known events in their order, each after the new ones that it anchors, then the tail. -/
def reordered (knownIds : List Text) (remote : Map Text (RemoteEntry Row)) (placing : Placing Row) :
    List (RemoteEntry Row) :=
  ((remote.entries.filter fun known => known.1 ∈ knownIds).flatMap fun known =>
    placing.bucket known.1 ++ [known.2]) ++ placing.tail

def ChannelProjection.applyRemote (state : ChannelProjection Row) (entries : List (RemoteEntry Row))
    (ignoredEventIds : List Text) :
    ChannelProjection Row :=
  let known := ignoredEventIds.foldl .ignore state
  let taken := entries.foldl .take known
  let placing := entries.foldr (place known.remote.keys taken.remote) .start
  { taken with
    remote := byEventId (reordered known.remote.keys taken.remote placing)
    revision := taken.revision + 1 }

/-! ## Own sends -/

/-- Whether a message in the timeline answers a send. -/
def ChannelProjection.echoed (state : ChannelProjection Row) (clientTxnId : Text) : Bool :=
  state.remote.entries.any fun entry => entry.2.kind = .message (some clientTxnId)

def ChannelProjection.applyLocal (state : ChannelProjection Row) (item : SendItem Row) :
    ChannelProjection Row :=
  let applied := match item.eventRef with
    | some eventId =>
      { state with
        remote := if eventId ∈ state.remote.keys then state.remote
          else state.remote.set eventId ⟨eventId, .message (some item.clientTxnId), item.row⟩
        locals := state.locals.delete item.clientTxnId }
    | none => if state.echoed item.clientTxnId then state else { state with locals := state.locals.set item.clientTxnId item.row }
  { applied with revision := state.revision + 1 }

/-- The rows of the channel. -/
def ChannelProjection.entries (state : ChannelProjection Row) : List (TimelineEntry Row) :=
  (state.remote.entries.map fun entry => .remote entry.2) ++ state.locals.entries.map fun send =>
    .localSend send.1 send.2

/-! ## Calls -/

inductive Call (Row : Type)
  | applyRemote (entries : List (RemoteEntry Row)) (ignoredEventIds : List Text)
  | applyLocal (item : SendItem Row)

def ChannelProjection.apply (state : ChannelProjection Row) : Call Row → ChannelProjection Row
  | .applyRemote entries ignoredEventIds => state.applyRemote entries ignoredEventIds
  | .applyLocal item => state.applyLocal item

/-- The state after some calls. -/
def ChannelProjection.run (state : ChannelProjection Row) (calls : List (Call Row)) :
    ChannelProjection Row :=
  calls.foldl .apply state

end Khala.Timeline
