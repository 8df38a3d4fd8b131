import Khala.Agent.LocalStore

/-! What the indexes of a channel say about its events, and that indexing one more event keeps it.
-/

namespace Khala.Local

open Js Decode

/-! ## What is told of one event -/

/-- Whether the event is about this user's membership. -/
def LocalEvent.isMemberOf (event : LocalEvent) (user : Text) : Bool :=
  event.type = .member && userOf event.content = user

/-- The content of the user's last membership event. -/
def lastContent (events : List LocalEvent) (user : Text) : Option Members :=
  ((events.filter (·.isMemberOf user)).getLast?).map (·.content)

/-- The events that come before one. -/
def eventsBefore (events : List LocalEvent) (event : LocalEvent) : List LocalEvent :=
  events.filter (·.seq < event.seq)

/-- The content of the membership before a membership event. -/
def previousIn (events : List LocalEvent) (event : LocalEvent) : Option Members :=
  if event.type = .member then lastContent (eventsBefore events event)
    (userOf event.content) else none

/-- The event as subscribers get it. -/
def deliveredIn (events : List LocalEvent) (event : LocalEvent) : LocalEvent :=
  match previousIn events event with
  | some previousContent => { event with previousContent := some previousContent }
  | none => event

/-- How an event shows in the history: messages and channel events as they are, a change of name as
a channel event derived from the membership before it. -/
def shownIn (events : List LocalEvent) (event : LocalEvent) : Option LocalEvent :=
  match event.type with
  | .member =>
    (memberRenameContent event.content (previousIn events event)).map fun content =>
      { event with type := .channelEvent, content := content.members }
  | .message | .channelEvent => some event
  | .create | .name | .listeningMode => none

/-- Everything that the history shows, oldest first. -/
def timeline (events : List LocalEvent) : List LocalEvent := events.filterMap (shownIn events)

/-- What is shown of an event has its number and identifier. -/
theorem seq_eventId_shownIn {events : List LocalEvent} {event shown : LocalEvent}
    (shows : shownIn events event = some shown) :
    shown.seq = event.seq ∧ shown.eventId = event.eventId := by
  unfold shownIn at shows
  split at shows
  · obtain ⟨content, -, rfl⟩ := Option.map_eq_some_iff.mp shows
    exact ⟨rfl, rfl⟩
  · cases shows
    exact ⟨rfl, rfl⟩
  · cases shows
    exact ⟨rfl, rfl⟩
  · cases shows
  · cases shows
  · cases shows

/-- What is delivered of an event has its number. -/
theorem seq_deliveredIn (events : List LocalEvent) (event : LocalEvent) :
    (deliveredIn events event).seq = event.seq := by
  unfold deliveredIn
  cases previousIn events event with
  | none => rfl
  | some previousContent => rfl

/-- Events in the order of their numbers. -/
def Ascending (events : List LocalEvent) : Prop :=
  events.Pairwise fun earlier later => earlier.seq < later.seq

/-- The events before one are what stands before it. -/
theorem eventsBefore_split {done rest : List LocalEvent} {event : LocalEvent}
    (ascending : Ascending (done ++ event :: rest)) :
    eventsBefore (done ++ event :: rest) event = done := by
  -- The events before are smaller, those after are greater, so the filter keeps the former.
  obtain ⟨-, after, across⟩ := List.pairwise_append.mp ascending
  have kept : done.filter (fun earlier => decide (earlier.seq < event.seq)) = done := by
    apply List.filter_eq_self.mpr
    intro earlier inside
    exact decide_eq_true (across earlier inside event List.mem_cons_self)
  have gone : (event :: rest).filter (fun later => decide (later.seq < event.seq)) = [] := by
    apply List.filter_eq_nil_iff.mpr
    intro later inside
    rcases List.mem_cons.mp inside with rfl | inside
    · simp
    · have := List.rel_of_pairwise_cons after inside
      simp only [decide_eq_true_eq]
      omega
  rw [eventsBefore, List.filter_append, kept, gone, List.append_nil]

/-- Later events change nothing about what comes before an earlier one. -/
theorem eventsBefore_append {events more : List LocalEvent} (ascending : Ascending (events ++ more))
    {event : LocalEvent} (inside : event ∈ events) :
    eventsBefore (events ++ more) event = eventsBefore events event := by
  obtain ⟨done, rest, rfl⟩ := List.append_of_mem inside
  rw [eventsBefore_split (List.pairwise_append.mp ascending).1]
  rw [List.append_assoc, List.cons_append] at ascending ⊢
  exact eventsBefore_split ascending

/-- What an event replaced does not depend on later events. -/
theorem previousIn_append {events more : List LocalEvent} (ascending : Ascending (events ++ more))
    {event : LocalEvent} (inside : event ∈ events) :
    previousIn (events ++ more) event = previousIn events event := by
  rw [previousIn, previousIn, eventsBefore_append ascending inside]

/-- What is delivered of an event does not depend on later ones. -/
theorem deliveredIn_append {events more : List LocalEvent} (ascending : Ascending (events ++ more))
    {event : LocalEvent} (inside : event ∈ events) :
    deliveredIn (events ++ more) event = deliveredIn events event := by
  rw [deliveredIn, deliveredIn, previousIn_append ascending inside]

/-- What is shown of an event does not depend on later ones. -/
theorem shownIn_append {events more : List LocalEvent} (ascending : Ascending (events ++ more))
    {event : LocalEvent} (inside : event ∈ events) :
    shownIn (events ++ more) event = shownIn events event := by
  rw [shownIn, shownIn, previousIn_append ascending inside]

/-- One more event is the member's last when it is the member's. -/
theorem lastContent_concat (events : List LocalEvent) (event : LocalEvent) (user : Text) :
    lastContent (events ++ [event]) user = if event.isMemberOf user then some event.content
      else lastContent events user := by
  unfold lastContent
  rw [List.filter_append]
  cases about : event.isMemberOf user with
  | true => simp [about]
  | false => simp [about]

/-! ## The indexes -/

/-- What the indexes of a channel say. -/
structure Channel.Indexed (channel : Channel) : Prop where
  ascending : Ascending channel.events
  positive : ∀ event ∈ channel.events, 0 < event.seq
  found : ∀ event ∈ channel.events, channel.byEventId.get event.eventId = some event
  last : ∀ user, (channel.lastMember.get user).map (·.1.content) = lastContent channel.events user
  previous : ∀ event ∈ channel.events,
    channel.previousMembers.get event.eventId = previousIn channel.events event
  stray : ∀ eventId, (∀ event ∈ channel.events, event.eventId ≠ eventId) →
    channel.previousMembers.get eventId = none

/-- No event has a number past the last. -/
theorem Channel.Indexed.le_lastSeq {channel : Channel} (indexed : channel.Indexed)
    {event : LocalEvent} (inside : event ∈ channel.events) : event.seq ≤ channel.lastSeq := by
  obtain ⟨last, atEnd⟩ : ∃ last, channel.events.getLast? = some last :=
    ⟨_, List.getLast?_eq_some_getLast (List.ne_nil_of_mem inside)⟩
  obtain ⟨before, whole⟩ := List.getLast?_eq_some_iff.mp atEnd
  have ascending := indexed.ascending
  rw [whole] at ascending inside
  rw [lastSeq, atEnd, Option.map_some, Option.getD_some]
  rcases List.mem_append.mp inside with before | same
  · exact Nat.le_of_lt
      ((List.pairwise_append.mp ascending).2.2 event before last List.mem_cons_self)
  · rw [List.mem_singleton.mp same]

/-- A channel that was just made is indexed. -/
theorem indexed_makeChannel (roomId : Text) (harnesses : Map Text Text) (validLines : Option Nat) :
    { makeChannel roomId with harnesses, validLines }.Indexed where
  ascending := List.Pairwise.nil
  positive := nofun
  found := nofun
  last := fun _ => rfl
  previous := nofun
  stray := fun _ _ => rfl

/-- What the indexes say does not hang on the rest of the channel. -/
theorem Channel.Indexed.congr {channel channel' : Channel} (indexed : channel.Indexed)
    (events : channel'.events = channel.events) (byEventId : channel'.byEventId = channel.byEventId)
    (lastMember : channel'.lastMember = channel.lastMember)
    (previousMembers : channel'.previousMembers = channel.previousMembers) : channel'.Indexed := by
  obtain ⟨ascending, positive, found, last, previous, stray⟩ := indexed
  constructor
  · rwa [events]
  · rwa [events]
  · rwa [events, byEventId]
  · rwa [events, lastMember]
  · rwa [events, previousMembers]
  · rwa [events, previousMembers]

/-- An event that is indexed comes last. -/
@[simp] theorem events_indexEvent (channel : Channel) (event : LocalEvent) :
    (channel.indexEvent event).events = channel.events ++ [event] := by
  unfold Channel.indexEvent
  cases event.type <;> rfl

/-- An event is indexed under its identifier. -/
@[simp] theorem byEventId_indexEvent (channel : Channel) (event : LocalEvent) :
    (channel.indexEvent event).byEventId = channel.byEventId.set event.eventId event := by
  unfold Channel.indexEvent
  cases event.type <;> rfl

/-- Indexing an event leaves the room's identifier. -/
@[simp] theorem roomId_indexEvent (channel : Channel) (event : LocalEvent) :
    (channel.indexEvent event).roomId = channel.roomId := by
  unfold Channel.indexEvent
  cases event.type <;> rfl

/-- Indexing an event leaves the valid lines. -/
theorem validLines_indexEvent (channel : Channel) (event : LocalEvent) :
    (channel.indexEvent event).validLines = channel.validLines := by
  unfold Channel.indexEvent
  cases event.type <;> rfl

/-- Reading lines leaves the valid lines as they are. -/
theorem validLines_readLines (lines : List Json) :
    ∀ channel : Channel,
      (lines.foldl Channel.readLine channel).validLines = channel.validLines := by
  induction lines with
  | nil => exact fun _ => rfl
  | cons line rest ih =>
    intro channel
    rw [List.foldl_cons, ih, Channel.readLine]
    split
    · rfl
    · split
      · rfl
      · exact validLines_indexEvent _ _

/-- The last membership content of every user after one more event. -/
theorem lastMember_indexEvent (channel : Channel) (event : LocalEvent) (user : Text) :
    ((channel.indexEvent event).lastMember.get user).map (·.1.content)
      = if event.isMemberOf user then some event.content
        else (channel.lastMember.get user).map (·.1.content) := by
  -- Only a member event is indexed, and it becomes the last of its user.
  unfold Channel.indexEvent LocalEvent.isMemberOf
  cases kind : event.type with
  | member =>
    simp only [Channel.indexMember, Map.get_set]
    by_cases same : user = userOf event.content
    · simp [same]
    · simp [same, Ne.symm same]
  | create => simp
  | name => simp
  | message => simp
  | channelEvent => simp
  | listeningMode => simp

/-- Only a membership event with one before it of the same user gets a previous content. -/
theorem previousMembers_indexEvent (channel : Channel) (event : LocalEvent) (eventId : Text) :
    (channel.indexEvent event).previousMembers.get eventId
      = if eventId = event.eventId ∧ event.type = .member then
          ((channel.lastMember.get (userOf event.content)).map (·.1.content)).or
          (channel.previousMembers.get eventId)
        else channel.previousMembers.get eventId := by
  -- Only a member event has a previous one, which is the last known of its user.
  unfold Channel.indexEvent
  cases kind : event.type with
  | member =>
    simp only [Channel.indexMember]
    cases channel.lastMember.get (userOf event.content) with
    | none => simp
    | some last =>
      simp only [Map.get_set]
      by_cases same : eventId = event.eventId
      · simp [same]
      · simp [same]
  | create => simp
  | name => simp
  | message => simp
  | channelEvent => simp
  | listeningMode => simp

/-- Indexing a new event with a larger number keeps what the indexes say. -/
theorem Channel.Indexed.indexEvent {channel : Channel} (indexed : channel.Indexed)
    {event : LocalEvent} (later : channel.lastSeq < event.seq)
    (fresh : ∀ earlier ∈ channel.events, earlier.eventId ≠ event.eventId) :
    (channel.indexEvent event).Indexed := by
  -- The new event is the greatest, so the log stays in its order.
  have ascending : Ascending (channel.events ++ [event]) := by
    apply List.pairwise_append.mpr
    refine ⟨indexed.ascending, List.pairwise_singleton _ _, ?_⟩
    intro earlier inside last isLast
    rw [List.mem_singleton.mp isLast]
    exact Nat.lt_of_le_of_lt (indexed.le_lastSeq inside) later
  have before : eventsBefore (channel.events ++ [event]) event = channel.events :=
    eventsBefore_split ascending
  refine ⟨?_, ?_, ?_, ?_, ?_, ?_⟩
  -- The order, the numbers and the places found all gain the new event at their end.
  · rwa [events_indexEvent]
  · intro other inside
    rw [events_indexEvent, List.mem_append, List.mem_singleton] at inside
    rcases inside with inside | rfl
    · exact indexed.positive other inside
    · exact Nat.zero_lt_of_lt later
  · intro other inside
    rw [events_indexEvent, List.mem_append, List.mem_singleton] at inside
    rw [byEventId_indexEvent]
    rcases inside with inside | rfl
    · rw [Map.get_set_of_ne (fresh other inside)]
      exact indexed.found other inside
    · exact Map.get_set_self _ _ _
  -- The last member of each user is the last in the longer log as well.
  · intro user
    rw [lastMember_indexEvent, events_indexEvent, lastContent_concat, indexed.last user]
  · -- A membership event finds the last content of its user; the earlier ones keep theirs.
    intro other inside
    rw [events_indexEvent, List.mem_append, List.mem_singleton] at inside
    rw [previousMembers_indexEvent, events_indexEvent]
    rcases inside with inside | rfl
    · rw [if_neg fun same => fresh other inside same.1, previousIn_append ascending inside]
      exact indexed.previous other inside
    · rw [indexed.stray other.eventId fresh, previousIn, before, indexed.last]
      by_cases member : other.type = .member
      · simp [member]
      · simp [member]
  -- An event that is not in the log has no previous member.
  · intro eventId absent
    rw [events_indexEvent] at absent
    rw [previousMembers_indexEvent, if_neg fun same => absent event (by simp) same.1.symm]
    exact indexed.stray eventId fun earlier inside => absent earlier (List.mem_append_left _ inside)

end Khala.Local
