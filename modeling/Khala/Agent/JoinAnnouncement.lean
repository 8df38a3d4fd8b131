import Khala.Agent.LocalIndexes
import Khala.Contracts.LocalLines
import Khala.Contracts.Names

/-! How the joins of an agent are announced in a local channel: requests read the channel at any
time, the store applies what they ask for one after the other, and a join or a mode echo waits for
the one before it. -/

namespace Khala.Announce

open Js Decode Local

/-! ## What the log tells of an agent -/

/-- The membership content makes its user a member. -/
def isJoin (content : Members) : Bool := textField content (lit "membership") = some (lit "join")

/-- The transitions so far, and whether the agent is in the channel after them. -/
def transit (userId : Text) (found : List LocalEvent × Bool) (event : LocalEvent) :
    List LocalEvent × Bool :=
  if event.isMemberOf userId then
    (if isJoin event.content && !found.2 then found.1 ++ [event] else found.1, isJoin event.content)
  else found

/-- The agent's transitions into `join`, oldest first. -/
def transitions (userId : Text) (events : List LocalEvent) : List LocalEvent :=
  (events.foldl (transit userId) ([], false)).1

/-- The transition that the agent's membership stands on. -/
def standing (userId : Text) (events : List LocalEvent) : Option LocalEvent :=
  if (events.foldl (transit userId) ([], false)).2 then (transitions userId events).getLast?
    else none

/-- `announcementTxn`, of the join's identifier. -/
def announcementTxn (eventId : Text) : Text := lit "local.join." ++ eventId.drop 1

/-- The announcements of a join. -/
def announcements (joined : LocalEvent) (events : List LocalEvent) : List LocalEvent :=
  events.filter fun event => event.type = .channelEvent && event.sender = localOwnerUserId
    && event.txnId = some (announcementTxn joined.eventId)

/-- The announcements of all joins. -/
def joinAnnouncements (events : List LocalEvent) : List LocalEvent :=
  events.filter fun event => event.type = .channelEvent && event.sender = localOwnerUserId
    && event.txnId.any fun txnId => decide (lit "local.join." <+: txnId)

/-- The name that a membership event shows. -/
def displayNameOf (event : LocalEvent) : Text :=
  (textField event.content (lit "displayname")).getD []

def joinSummary (displayName : Text) (rejoin : Bool) : Text :=
  displayName ++ lit " " ++ if rejoin then lit "rejoined" else lit "joined"

def encodeJoin (displayName : Text) (rejoin : Bool) : Decoded PlainChannelEvent :=
  encodeChannelEvent (lit "member") (joinSummary displayName rejoin) .info (lit "khala-local")

/-! ## What a request reads -/

/-- `StoredMember`, of an agent. -/
structure Member where
  membership : Text
  displayName : Text
  harness : Option Text
  listeningMode : Text

/-- `memberListeningMode`. -/
def memberListeningMode (content : Members) : Text :=
  match lookup content listeningModeKey with
  | none => lit "sync"
  | some (.string mode) => if mode ∈ listeningModes then mode else lit "async"
  | some _ => lit "async"

/-- `store.member`. -/
def member (channel : Channel) (userId : Text) : Option Member :=
  (channel.lastMember.get userId).map fun last =>
    ⟨(textField last.1.content (lit "membership")).getD [], displayNameOf last.1,
      textField last.1.content (lit "harness"), memberListeningMode last.1.content⟩

/-- `memberContent`. -/
def memberContent (userId : Text) (member : Member) (membership : Text) : AgentContent :=
  ⟨userId, membership, member.displayName, member.harness.filter (· ≠ []), none,
    some member.listeningMode⟩

structure MemberEvents where
  current : Option LocalEvent
  joined : Option LocalEvent
  announced : Bool
  joins : Nat

/-- One event of the scan. -/
def MemberEvents.read (userId : Text) (found : MemberEvents) (event : LocalEvent) : MemberEvents :=
  if event.isMemberOf userId then
    if isJoin event.content = false then ⟨some event, none, false, found.joins⟩
    else if found.current.any fun current =>
      isJoin current.content then { found with current := some event }
    else ⟨some event, some event, false, found.joins + 1⟩
  else if event.type = .channelEvent && event.sender = localOwnerUserId
      && found.joined.any fun joined => event.txnId = some (announcementTxn joined.eventId) then
    { found with announced := true }
  else found

/-- The pages of a scan. -/
def readPages (channel : Channel) (userId : Text) :
    (fuel after : Nat) → MemberEvents → Option MemberEvents
  | 0, _, _ => none
  | fuel + 1, after, found =>
    let page := channel.eventsAfter after 200
    let found := page.foldl (MemberEvents.read userId) found
    if page.length < 200 then some found
    else readPages channel userId fuel ((page.getLast?.map (·.seq)).getD after) found

/-- `memberEvents`, for at most as many pages as there are events, and one more. -/
def memberEvents (channel : Channel) (userId : Text) : Option MemberEvents :=
  readPages channel userId (channel.events.length + 1) 0 ⟨none, none, false, 0⟩

/-! ## Requests under way -/

/-- What waits in the store's queue, and whether a room's own route waits for it. -/
structure Pending where
  input : AppendInput
  rooms : Bool

/-- Where a room's own route waits for the store. -/
inductive Stage
  /-- The membership event of a join. -/
  | joining (rejoin : Bool)
  /-- The announcement of a join, with the event that is answered and the transition that the
  request is for. -/
  | announcing (event : Option LocalEvent) (serves : Option Text)
  | echoing

/-- A stage, with what the store has answered. -/
structure Running where
  stage : Stage
  result : Option (Option LocalEvent)

/-- A join that was answered with 200, and the transition that stood when it began or that it made.
-/
structure Answer where
  seq : Nat
  ts : Nat
  serves : Option Text

structure State where
  room : Room
  queue : List Pending
  running : Option Running
  answers : List Answer

def State.enqueue (state : State) (input : AppendInput) : State :=
  { state with queue := state.queue ++ [⟨input, false⟩] }

/-- A room's own route goes on to the store. -/
def State.ask (state : State) (input : AppendInput) (stage : Stage) : State :=
  { state with queue := state.queue ++ [⟨input, true⟩], running := some ⟨stage, none⟩ }

/-- A join is over: 200 with its event, or 503. -/
def State.answer (state : State) (event : Option LocalEvent) (serves : Option Text) : State :=
  { state with
    running := none
    answers := state.answers ++ (event.map fun event => ⟨event.seq, event.ts, serves⟩).toList }

/-- What is left of a join: the announcement that is missing, and the answer. A summary that is not
accepted is left out. -/
def State.announce (state : State) (event joined : Option LocalEvent) (announced rejoin : Bool)
    (serves : Option Text) : State :=
  match joined.bind fun joined =>
    if announced then none else (encodeJoin (displayNameOf joined) rejoin).toOption.map
    fun encoded => (joined, encoded) with
  | some (joined, encoded) =>
    state.ask ⟨.channelEvent, localOwnerUserId, some (announcementTxn joined.eventId),
      encoded.members⟩ (.announcing event serves)
  | none => state.answer event serves

variable (userId : Text)

/-- `POST join` of the agent. -/
def State.beginJoin (state : State) : State :=
  match member state.room.channel userId, memberEvents state.room.channel userId with
  | some member, some found =>
    if member.membership = lit "leave" then state
    else if member.membership = lit "join" then
      state.announce found.current found.joined found.announced (found.joins > 1)
        ((standing userId state.room.channel.events).map (·.eventId))
    else state.ask ⟨.member, userId, none, (memberContent userId member (lit "join")).members⟩
      (.joining (found.joins > 0))
  | _, _ => state

/-- `PUT members/…` of the agent. -/
def State.beginEcho (state : State) (mode : Text) : State :=
  match member state.room.channel userId with
  | some member =>
    if member.membership = lit "join" ∧ mode ∈ listeningModes then
      state.ask ⟨.member, userId, none, { memberContent userId member (lit "join") with mode := some mode }.members⟩ .echoing
    else state
  | none => state

/-- The owner's new name for the agent. -/
def State.rename (state : State) (name : Text) : State :=
  match member state.room.channel userId, checkName name .agent with
  | some member, .ok checked =>
    if member.membership = lit "leave" ∨ member.displayName = checked then state
    else state.enqueue ⟨.member, localOwnerUserId, none,
      { memberContent userId member member.membership with displayname := checked }.members⟩
  | _, _ => state

/-- The owner removes the agent. -/
def State.leave (state : State) : State :=
  match member state.room.channel userId with
  | some member =>
    if member.membership = lit "leave" then state
    else state.enqueue ⟨.member, localOwnerUserId, none,
      (memberContent userId member (lit "leave")).members⟩
  | none => state

/-- The agent comes with a link: for the first time under a new name, or as before. -/
def State.invite (state : State) (name harness : Text) : State :=
  match checkName name .agent with
  | .ok checked =>
    if isHarness harness then
      -- A former member keeps name and mode; a new one gets the name asked for.
      let previous := member state.room.channel userId
      state.enqueue ⟨.member, localOwnerUserId, none, AgentContent.members
        ⟨userId, lit "invite", (previous.map (·.displayName)).getD checked, some harness,
          some localOwnerUserId,
          previous.map (·.listeningMode)⟩⟩
    else state
  | .error _ => state

variable (ids : Nat → Text)

/-- The store takes what waits first. -/
def State.append (state : State) (ts : Nat) (fault : Option WriteFault) : State :=
  match state.queue with
  | [] => state
  | pending :: rest =>
    let (room, stored) := state.room.append ids pending.input ts fault
    { state with
      room, queue := rest
      running := if pending.rooms then state.running.map fun running =>
        { running with result := some stored } else state.running }

/-- A room's own route goes on after the store. -/
def State.resume (state : State) : State :=
  match state.running with
  | some ⟨.joining rejoin, some (some event)⟩ =>
    state.announce (some event) (some event) false rejoin (some event.eventId)
  | some ⟨.announcing event serves, some (some _)⟩ => state.answer event serves
  | some ⟨_, some _⟩ => { state with running := none }
  | some ⟨_, none⟩ => state
  | none => state

/-- A new helper reads the log, and no request is under way. -/
def State.restart (state : State) (harnesses : Map Text Text) (ownerName : Option Text)
    (torn : Bool) : State :=
  match openChannel state.room.channel.roomId state.room.lines harnesses ownerName torn with
  | some channel => { state with room := { state.room with channel }, queue := [], running := none }
  | none => state

inductive Action
  /-- A join request begins. -/
  | join
  /-- The agent reports its mode. -/
  | echo (mode : Text)
  | rename (name : Text)
  | leave
  | invite (name harness : Text)
  /-- What else is written to the channel: messages, other members, the notice of who left. -/
  | other (input : AppendInput)
  /-- The first write of the queue is carried out, or fails. -/
  | append (ts : Nat) (fault : Option WriteFault)
  /-- The request whose write is settled goes on. -/
  | resume
  /-- The process ends, and the store is opened again. -/
  | restart (harnesses : Map Text Text) (ownerName : Option Text) (torn : Bool)

def State.step (state : State) : Action → State
  | .join => state.beginJoin userId
  | .echo mode => state.beginEcho userId mode
  | .rename name => state.rename userId name
  | .leave => state.leave userId
  | .invite name harness => state.invite userId name harness
  | .other input => state.enqueue input
  | .append ts fault => state.append ids ts fault
  | .resume => state.resume
  | .restart harnesses ownerName torn => state.restart harnesses ownerName torn

/-- What else is written is not about the agent, and is no announcement of a join. -/
def IsOther (input : AppendInput) : Prop :=
  isLocalUserId input.sender = true ∧ ¬ (input.type = .member ∧ userOf input.content = userId)
    ∧ (input.sender = localOwnerUserId → ∀ txnId ∈ input.txnId, ¬ lit "local.join." <+: txnId)

/-- A room's own route begins when the one before it has ended, and what the store writes is
numbered and dated by safe integers. -/
def Meets (state : State) : Action → Prop
  | .join => state.running.isNone
  | .echo _ => state.running.isNone
  | .other input => IsOther userId input
  | .append ts _ => ts ≤ maxSafeInteger ∧ state.room.channel.lastSeq < maxSafeInteger
  | .rename _ | .leave | .invite _ _ | .resume | .restart _ _ _ => True

/-- The states that requests and restarts lead to, from a new channel on. -/
inductive Reached : State → Prop
  | start (roomId name ownerUsername : Text) (operationId : Option Text) (drawn ts ts' : Nat)
      (isRoom : isLocalRoomId roomId = true) :
    Reached ⟨createChannel ids roomId name ownerUsername operationId drawn ts ts' none none, [],
      none, []⟩
  | step {state : State} (action : Action) : Reached state → Meets userId state action →
  Reached (state.step userId ids action)

/-- A join request's own membership event is written while the agent is not in the channel: no other
write that was asked for before the agent came anew has made it a member in the meantime. -/
def InTime (state : State) : Action → Prop
  | .append _ _ => ∀ pending rejoin, state.queue.head? = some pending → pending.rooms = true →
    state.running = some ⟨.joining rejoin, none⟩ → standing userId state.room.channel.events = none
  | _ => True

/-- The states that are reached with all joins written in time. -/
inductive Timely : State → Prop
  | start (roomId name ownerUsername : Text) (operationId : Option Text) (drawn ts ts' : Nat)
      (isRoom : isLocalRoomId roomId = true) :
    Timely ⟨createChannel ids roomId name ownerUsername operationId drawn ts ts' none none, [],
      none, []⟩
  | step {state : State} (action : Action) : Timely state → Meets userId state action →
  InTime userId state action →
    Timely (state.step userId ids action)

end Khala.Announce
