import Khala.Contracts.AgentNames
import Khala.Js.Map

/-! The names that a channel's history shows: owners rename their agents, and a snapshot tells a
reader whose history begins later what an agent was called. -/

namespace Khala

open Js

inductive ParticipantKind
  | human
  | agent
deriving DecidableEq

structure NameParticipant where
  participantId : Text
  ownerId : Text
  kind : ParticipantKind
  initialName : Text
deriving DecidableEq

inductive NameTimelineEvent
  | message (eventId authorParticipantId : Text)
  | agentRename (eventId actorParticipantId targetParticipantId name : Text)
  | agentNameSnapshot (eventId actorParticipantId targetParticipantId name : Text)
    (sourceEventId : Option Text)
deriving DecidableEq

def NameTimelineEvent.eventId : NameTimelineEvent → Text
  | .message eventId _ => eventId
  | .agentRename eventId _ _ _ => eventId
  | .agentNameSnapshot eventId _ _ _ _ => eventId

inductive ProjectedNameEvent
  | message (eventId authorParticipantId authorName : Text)
  | agentRename (eventId actorParticipantId actorName targetParticipantId previousName name : Text)
deriving DecidableEq

structure NameProjection where
  events : List ProjectedNameEvent
  currentNames : Map Text Text
  /-- The rename that an agent's name comes from; `null` where a snapshot named none. -/
  latestRename : Map Text (Option Text)

def identityMap (participants : List NameParticipant) : Map Text NameParticipant :=
  participants.foldl (fun identity participant =>
    identity.set participant.participantId participant) Map.empty

def initialNames (participants : List NameParticipant) : Map Text Text :=
  participants.foldl (fun names participant =>
    names.set participant.participantId participant.initialName) Map.empty

/-- The identifiers of the renames that the reader has. -/
def visibleRenames (events : List NameTimelineEvent) : List Text :=
  events.filterMap fun event =>
    match event with
    | .agentRename eventId _ _ _ => some eventId
    | _ => none

section

-- `String.prototype.normalize` with `NFC` and `NFKC`.
variable (nfc nfkc : Text → Text)

/-- A person who gives an agent of theirs a name that may be one: the person, the agent, and the
name. -/
def ownedName (identity : Map Text NameParticipant)
    (actorParticipantId targetParticipantId name : Text) :
    Option (NameParticipant × NameParticipant × Text) :=
  match identity.get actorParticipantId, identity.get targetParticipantId,
    validateAgentName nfc nfkc (.string name) with
  | some actor, some target, .ok checked =>
    if actor.kind = .human ∧ target.kind = .agent ∧ actor.ownerId = target.ownerId
      then some (actor, target, checked)
    else none
  | _, _, _ => none

/-- A snapshot that names a rename outside the reader's history is the baseline at their history's
boundary. A readable rename is replayed in its own place. -/
def NameProjection.baseline (identity : Map Text NameParticipant) (visible : List Text)
    (projection : NameProjection) (event : NameTimelineEvent) : NameProjection :=
  match event with
  | .agentNameSnapshot _ actorParticipantId targetParticipantId name (some sourceEventId) =>
    -- A snapshot of an event that is on the page is left to the replay.
    if sourceEventId ∈ visible then projection
    else match ownedName nfc nfkc identity actorParticipantId targetParticipantId name with
      | some (_, target, checked) =>
        -- The first snapshot of a participant gives the name.
        if (projection.latestRename.get target.participantId).isNone then
          { projection with
            currentNames := projection.currentNames.set target.participantId checked
            latestRename := projection.latestRename.set target.participantId (some sourceEventId) }
        else projection
      | none => projection
  -- Nothing else is a baseline.
  | _ => projection

/-- One event in its place. -/
def NameProjection.replay (identity : Map Text NameParticipant) (projection : NameProjection)
    (event : NameTimelineEvent) :
    NameProjection :=
  match event with
  -- A message shows the name that its author has at this point.
  | .message eventId authorParticipantId =>
    match identity.get authorParticipantId with
    | some author =>
      { projection with
        events := projection.events ++ [.message eventId authorParticipantId
          ((projection.currentNames.get authorParticipantId).getD author.initialName)] }
    -- Who is not known is not shown.
    | none => projection
  | .agentRename eventId actorParticipantId targetParticipantId name =>
    match ownedName nfc nfkc identity actorParticipantId targetParticipantId name with
    | some (actor, target, checked) =>
      -- The rename counts as the latest one, also when it changes nothing.
      let latest := { projection with latestRename := projection.latestRename.set target.participantId (some eventId) }
      let previousName := (projection.currentNames.get target.participantId).getD target.initialName
      -- A rename to the same name is not shown.
      if previousName = checked then latest
      else { latest with
        events := projection.events ++ [.agentRename eventId actor.participantId
          ((projection.currentNames.get actor.participantId).getD actor.initialName)
            target.participantId previousName
          checked]
        currentNames := projection.currentNames.set target.participantId checked }
    | none => projection
  | .agentNameSnapshot _ actorParticipantId targetParticipantId name sourceEventId =>
    match ownedName nfc nfkc identity actorParticipantId targetParticipantId name with
    | some (_, target, checked) =>
      -- A snapshot counts unless a later rename is known.
      if (projection.latestRename.get target.participantId).isNone
          ∨ projection.latestRename.get target.participantId = some sourceEventId
            ∧ projection.currentNames.get target.participantId = some checked then
        { projection with
          currentNames := projection.currentNames.set target.participantId checked
          latestRename := projection.latestRename.set target.participantId sourceEventId }
      else projection
    | none => projection

/-- The second loop: every event once, in its place. -/
def NameProjection.replayAll (identity : Map Text NameParticipant) :
    (seen : List Text) → NameProjection → List NameTimelineEvent → NameProjection
  | _, projection, [] => projection
  | seen, projection, event :: rest =>
    if event.eventId ∈ seen then replayAll identity seen projection rest
    else replayAll identity (event.eventId :: seen) (projection.replay nfc nfkc identity event) rest

/-- Replays the permitted channel history in transport order with authenticated owner bindings. -/
def projectNamesInOrder (participants : List NameParticipant) (events : List NameTimelineEvent) :
    NameProjection :=
  let identity := identityMap participants
  let visible := visibleRenames events
  let started :=
    events.foldl (NameProjection.baseline nfc nfkc identity visible) ⟨[],
      initialNames participants, Map.empty⟩
  started.replayAll nfc nfkc identity [] events

end

/-- What each message was shown to be written by. -/
def NameProjection.authorNames (projection : NameProjection) : List (Text × Text) :=
  projection.events.filterMap fun event =>
    match event with
    | .message eventId _ authorName => some (eventId, authorName)
    | .agentRename .. => none

/-! ## Participants -/

/-- A participant is found under its identifier. -/
theorem get_identityMap {participants : List NameParticipant} {participantId : Text}
    {participant : NameParticipant}
    (found : (identityMap participants).get participantId = some participant) :
    participant.participantId = participantId := by
  -- The statement is for any map whose participants stand under their own identifiers.
  have general : ∀ (participants : List NameParticipant) (identity : Map Text NameParticipant),
      (∀ key value, identity.get key = some value → value.participantId = key) →
      ∀ key value,
        (participants.foldl (fun identity participant =>
          identity.set participant.participantId participant)
        identity).get key = some value → value.participantId = key := by
    intro participants
    induction participants with
    | nil => exact fun identity keyed => keyed
    | cons participant rest ih =>
      intro identity keyed
      apply ih
      intro key value found
      -- The new one does too, and may replace an older one.
      rw [Map.get_set] at found
      split at found
      · cases found
        rename_i same
        exact same.symm
      · exact keyed key value found
  exact general participants Map.empty (fun _ _ held => by cases held) participantId
    participant found

/-- A participant's first name is the one that it came with. -/
theorem get_initialNames (participants : List NameParticipant) (participantId : Text) :
    (initialNames participants).get participantId
      = ((identityMap participants).get participantId).map (·.initialName) := by
  -- The statement is for any two maps that agree to begin with.
  have general : ∀ (participants : List NameParticipant) (identity : Map Text NameParticipant)
    (names : Map Text Text),
      (∀ key, names.get key = (identity.get key).map (·.initialName)) →
      ∀ key, (participants.foldl (fun names participant =>
        names.set participant.participantId participant.initialName)
        names).get key = ((participants.foldl (fun identity participant =>
          identity.set participant.participantId participant) identity).get key).map
            (·.initialName) := by
    intro participants
    induction participants with
    | nil => exact fun identity names same => same
    | cons participant rest ih =>
      intro identity names same
      apply ih
      intro key
      rw [Map.get_set, Map.get_set]
      split
      · rfl
      · exact same key
  exact general participants Map.empty Map.empty (fun _ => rfl) participantId

end Khala
