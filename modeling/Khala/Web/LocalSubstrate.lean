import Khala.Agent.HistoryPaging

/-! How the local web app follows a channel: a summary, the last page of its history, and polls for
later events. -/

namespace Khala.LocalWeb

open Js Khala.Local

/-- Where the subscription is: in its first loop, in its second, or at its end. -/
inductive Phase
  | summary | history | polling | ended
deriving DecidableEq

/-- A subscription, the windows that it has published, and what history and polls have answered. -/
structure Subscription where
  phase : Phase
  window : Map Text LocalEvent
  after : Nat
  updates : List (List LocalEvent)
  page : Option (List LocalEvent)
  polled : List LocalEvent

def Subscription.start : Subscription := ⟨.summary, .empty, 0, [], none, []⟩

/-- The events of the window, in its order. -/
def Subscription.shown (sub : Subscription) : List LocalEvent := sub.window.entries.map Prod.snd

def Subscription.publish (sub : Subscription) : Subscription :=
  { sub with updates := sub.updates ++ [sub.shown] }

/-- Whether an event of the window becomes one of the update: a message or a channel event whose
content can be read, or a rename. -/
def projects (reads : LocalEvent → Bool) (event : LocalEvent) : Bool :=
  match event.type with
  | .message | .channelEvent => reads event
  | .member => (memberRenameContent event.content event.previousContent).isSome
  | .create | .name | .listeningMode => false

/-- The events of an update. -/
def listing (reads : LocalEvent → Bool) (update : List LocalEvent) : List LocalEvent :=
  update.filter (projects reads)

/-! ## Answers -/

/-- A summary tells where polls begin. -/
def Subscription.takeSummary (sub : Subscription) (lastSeq : Nat) : Subscription :=
  { sub with phase := .history, after := lastSeq }

def store (window : Map Text LocalEvent) (event : LocalEvent) : Map Text LocalEvent :=
  window.set event.eventId event

def Subscription.takeHistory (sub : Subscription) (events : List LocalEvent) : Subscription :=
  { sub with phase := .polling, window := events.foldl store sub.window, page := some events }.publish

/-- Whether the window takes an event of a poll. -/
def inWindow (event : LocalEvent) : Bool :=
  event.type = .message || event.type = .channelEvent
    || (event.type = .member && event.previousContent.isSome)

/-- The first entries go until two hundred are left. -/
def trimmed (window : Map Text LocalEvent) : Map Text LocalEvent where
  entries := window.entries.drop (window.entries.length - 200)
  distinct := window.distinct.sublist ((List.drop_sublist _ _).map Prod.fst)

/-- The loop over the events that a poll returns. -/
def Subscription.receive (sub : Subscription) (events : List LocalEvent) : Subscription where
  phase := sub.phase
  window := trimmed ((events.filter inWindow).foldl store sub.window)
  after := events.foldl (fun after event => max after event.seq) sub.after
  updates := sub.updates
  page := sub.page
  polled := sub.polled ++ events

def Subscription.takePoll (sub : Subscription) (events : List LocalEvent) : Subscription :=
  if events.isEmpty then sub.receive events else (sub.receive events).publish

/-- A request that fails; the first loop begins again. -/
def Subscription.fail (sub : Subscription) : Subscription :=
  { sub with phase := if sub.phase = .history then .summary else sub.phase }

/-- The channel is gone, or the viewer may not read it. -/
def Subscription.stop (sub : Subscription) : Subscription := { sub.publish with phase := .ended }

/-! ## Runs -/

-- The identifiers of events in the order in which they are drawn, and what is asked of a first
-- history page.
variable (ids : Nat → Text) (met : Room → Subscription → Prop)

/-- One write to the room, or one answer to the subscription. -/
inductive Step : Room × Subscription → Room × Subscription → Prop
  | write {room room' : Room} {sub : Subscription} : room.Writes ids room' →
  Step (room, sub) (room', sub)
  | fail {room : Room} {sub : Subscription} : sub.phase ≠ .ended → Step (room, sub) (room, sub.fail)
  | summary {room : Room} {sub : Subscription} : sub.phase = .summary → Step (room, sub)
    (room, sub.takeSummary room.channel.lastSeq)
  | history {room : Room} {sub : Subscription} : sub.phase = .history → met room sub →
    Step (room, sub) (room, sub.takeHistory (room.channel.history none 50).events)
  | poll {room : Room} {sub : Subscription} : sub.phase = .polling →
    Step (room, sub) (room, sub.takePoll (room.channel.eventsAfter sub.after 200))
  | stop {room : Room} {sub : Subscription} : sub.phase = .summary ∨ sub.phase = .polling →
  Step (room, sub) (room, sub.stop)

/-- What a subscription to a room comes to, while the room is written to. -/
abbrev Follows : Room × Subscription → Room × Subscription → Prop :=
  Relation.ReflTransGen (Step ids met)

end Khala.LocalWeb
