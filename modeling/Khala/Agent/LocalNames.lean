import Khala.Agent.NameCascade
import Khala.Contracts.FreeNames
import Khala.Js.Map

/-! Who is in a local channel under which name: three paths of requests read the members at any
time, each one request after the other, and the store applies their changes one after the other. -/

namespace Khala.LocalNames

open Js

inductive Membership
  | invite
  | join
  | leave
deriving DecidableEq, Repr

/-- An agent's latest membership event. -/
structure Member where
  membership : Membership
  displayName : Text
  harness : Option Text
  listeningMode : ListeningMode
deriving DecidableEq, Repr

/-- The agent is in the channel, or may enter it. -/
def Member.present (member : Member) : Bool := member.membership ≠ .leave

/-- The queues that requests wait in: joins with a link, the owner's requests, and those of members.
-/
inductive Path
  | join
  | owner
  | rooms
deriving DecidableEq, Repr

/-- What the store is asked to do. -/
inductive Task
  | member (userId : Text) (content : Member)
  | memberToken (userId : Text) (sessionKey : Option Text)
  | username (name : Text)
  | ownerName (name : Option Text)
  /-- The owner's own membership event, which shows no other name. -/
  | ownerMember (displayName : Text)
deriving DecidableEq, Repr

/-- Where a request waits for the store. -/
inductive Stage
  /-- An invite is being written; the agent's token comes next. -/
  | inviting (userId : Text) (sessionKey : Option Text)
  /-- The request's last task. -/
  | last
  /-- The username is being written; the channels come next. -/
  | writing (previous next : Text)
  /-- The username is written. -/
  | listed (previous next : Text)
  /-- The owner's part in the channel, with the names that are taken when it fails and when it
  works. -/
  | owning (previous next : Text) (rest : List (Text × Member)) (taken retaken : Finset Text)
  /-- Between the agents of the channel. -/
  | cascading (previous next : Text) (rest : List (Text × Member)) (taken : Finset Text)
  /-- An agent's new name is being written. -/
  | naming (previous next : Text) (userId : Text) (m : Member) (name : Text)
    (rest : List (Text × Member)) (without : Finset Text)

/-- A request that runs, with how its task went once the store has settled it. -/
structure Running where
  stage : Stage
  result : Option Bool

/-- A channel, and the requests about it. -/
structure State where
  username : Text
  /-- The owner's name in this channel only. -/
  ownerName : Option Text
  agents : Map Text Member
  /-- The session key beside each agent's token. -/
  sessions : Map Text (Option Text)
  pending : List (Path × Task)
  running : Path → Option Running

/-- A new channel: nobody but the owner is there. -/
def State.start (username : Text) : State := ⟨username, none, .empty, .empty, [], fun _ => none⟩

/-- `store.members`, without the owner. -/
def State.members (state : State) : List (Text × Member) :=
  state.agents.entries.filter fun entry => entry.2.present

/-- The owner's name as the members list it. -/
def State.ownerShown (state : State) : Text := state.ownerName.getD state.username

/-- The names of all members. -/
def State.names (state : State) : Finset Text :=
  (state.ownerShown :: state.members.map fun entry => entry.2.displayName).toFinset

/-- A request goes on to the store. -/
def State.ask (state : State) (path : Path) (task : Task) (stage : Stage) : State :=
  { state with
    pending := state.pending ++ [(path, task)]
    running := Function.update state.running path (some ⟨stage, none⟩) }

/-- A request that has nothing to wait for goes on. -/
def State.goOn (state : State) (path : Path) (stage : Stage) : State :=
  { state with running := Function.update state.running path (some ⟨stage, some true⟩) }

def State.finish (state : State) (path : Path) : State :=
  { state with running := Function.update state.running path none }

/-- `memberForSession`: the first agent with the session key. -/
def State.memberForSession (state : State) (sessionKey : Text) : Option (Text × Member) :=
  (state.sessions.entries.find? fun entry => entry.2 = some sessionKey).bind fun entry =>
    (state.agents.get entry.1).map fun member => (entry.1, member)

/-- A join with a link that was consumed. -/
structure JoinRequest where
  /-- The owner's username, as it was when the request came. -/
  username : Text
  harness : Text
  label : Option Text
  sessionKey : Option Text
  /-- The identifiers that are drawn for a new agent. -/
  drawn : List Text
deriving DecidableEq

inductive Action
  /-- An agent asks to join. -/
  | join (request : JoinRequest)
  /-- The owner renames an agent. -/
  | renameAgent (userId name : Text)
  /-- The owner takes a name for this channel. -/
  | nameOwner (name : Text)
  /-- The owner removes an agent. -/
  | removeMember (userId : Text)
  /-- The owner's username changes. -/
  | setUsername (name : Text)
  /-- An invited agent enters, or is told that it is there. -/
  | enter (userId : Text)
  /-- A mode is set; the membership event of the agent carries it. -/
  | setMode (userId : Text) (mode : ListeningMode)
  /-- The store settles its first task; the owner's name may have changed though the call fails. -/
  | settle (ok landed : Bool)
  /-- A request whose task is settled goes on. -/
  | resume (path : Path)

variable (toLowerCase fold : Text → Text)

/-- A join reads the members and chooses the name, or fails. -/
def State.beginJoin (state : State) (request : JoinRequest) : State :=
  if !(checkName (defaultAgentName request.username request.harness 2) .agent).isOk then state
  else
    let previous := request.sessionKey.bind state.memberForSession
    match checkName (freeAgentName toLowerCase request.username request.harness state.names request.label) .agent with
    | .error _ => state
    | .ok name =>
      match previous with
      -- A returning session brings its agent back under the name that it had.
      | some (userId, member) =>
        state.ask .join (.member userId { member with membership := .invite, harness := some request.harness })
          (.inviting userId request.sessionKey)
      | none =>
        match request.drawn.find? fun userId => (state.agents.get userId).isNone with
        | none => state
        | some userId =>
          state.ask .join (.member userId ⟨.invite, name, some request.harness, .sync⟩)
            (.inviting userId request.sessionKey)

/-- The owner renames an agent. -/
def State.beginRename (state : State) (userId name : Text) : State :=
  match checkName name .agent, state.agents.get userId with
  | .ok name, some member =>
    if !member.present then state
    else if (state.members.any fun other =>
      other.1 ≠ userId && toLowerCase other.2.displayName == toLowerCase name)
        || toLowerCase state.ownerShown == toLowerCase name then state
    else if member.displayName = name then state
    else state.ask .owner (.member userId { member with displayName := name }) .last
  | _, _ => state

/-- The owner chooses a name for the channel. -/
def State.beginNameOwner (state : State) (name : Text) : State :=
  match checkName name .username with
  | .error _ => state
  | .ok name =>
    if state.members.any fun other => toLowerCase other.2.displayName == toLowerCase name then state
    else state.ask .owner (.ownerName (if name = state.username then none else some name)) .last

/-- An agent's own event, or the owner's removal of it. -/
def State.beginMember (state : State) (path : Path) (userId : Text) (allowed : Member → Bool)
    (content : Member → Member) : State :=
  match state.agents.get userId with
  | none => state
  | some member => if allowed member then state.ask path (.member userId (content member)) .last
    else state

def State.beginUsername (state : State) (name : Text) : State :=
  match checkNewUsername name with
  | .error _ => state
  | .ok name =>
    if state.username = name then state else state.ask .owner (.username name)
      (.writing state.username name)

/-- A cascade reads the members of the channel, and takes the owner's part. -/
def State.beginCascade (state : State) (previous next : Text) : State :=
  let taken := state.names.image toLowerCase
  if previous = next then state.goOn .owner (.cascading previous next state.members taken)
  else
    let retaken := insert (toLowerCase next) (taken.erase (toLowerCase state.ownerShown))
    let stage := Stage.owning previous next state.members taken retaken
    match state.ownerName with
    | some _ => state.ask .owner (.ownerName none) stage
    | none => state.ask .owner (.ownerMember next) stage

/-- What a request does once its task is settled. -/
def State.continue_ (state : State) (path : Path) (stage : Stage) (ok : Bool) : Option State :=
  match stage with
  | .inviting userId sessionKey =>
    -- A request whose write failed ends there.
    some (if ok then state.ask path (.memberToken userId sessionKey) .last else state.finish path)
  | .last => some (state.finish path)
  | .writing previous next =>
    some (if ok then state.goOn path (.listed previous next) else state.finish path)
  | .listed previous next => some (state.beginCascade toLowerCase previous next)
  -- The names taken depend on whether the owner's name was given up.
  | .owning previous next rest taken retaken =>
    some (state.goOn path (.cascading previous next rest (if ok then retaken else taken)))
  -- Without further agents the request is done.
  | .cascading _ _ [] _ => some (state.finish path)
  | .cascading previous next ((userId, m) :: rest) taken =>
    (Cascade.chooseName toLowerCase fold (taken.card + 1) previous next taken m.displayName
      m.harness).map fun
      | .keep taken => state.goOn path (.cascading previous next rest taken)
      | .take name without =>
        state.ask path (.member userId { m with displayName := name })
          (.naming previous next userId m name rest without)
  | .naming previous next _ m name rest without =>
    some (state.goOn path (.cascading previous next rest
      -- The name that the agent has now is taken.
      (insert (toLowerCase (if ok then name else m.displayName)) without)))

/-- The store does a task. -/
def State.apply (state : State) : Task → State
  | .member userId content => { state with agents := state.agents.set userId content }
  | .memberToken userId sessionKey =>
    { state with sessions := state.sessions.set userId (sessionKey.or ((state.sessions.get userId).getD none)) }
  | .username name => { state with username := name }
  | .ownerName name => { state with ownerName := name }
  | .ownerMember _ => state

/-- A task whose call fails: only the owner's name may have changed. -/
def State.applyFailed (state : State) (landed : Bool) : Task → State
  | .ownerName name => if landed then { state with ownerName := name } else state
  | _ => state

/-- A request begins where its path is free. -/
def State.begin_ (state : State) (path : Path) (after : State) : Option State :=
  match state.running path with
  | none => some after
  | some _ => none

def State.step (state : State) : Action → Option State
  | .join request => state.begin_ .join (state.beginJoin toLowerCase request)
  | .renameAgent userId name => state.begin_ .owner (state.beginRename toLowerCase userId name)
  | .nameOwner name => state.begin_ .owner (state.beginNameOwner toLowerCase name)
  | .removeMember userId =>
    -- Only a member that is present is removed.
    state.begin_ .owner (state.beginMember .owner userId Member.present fun member =>
      { member with membership := .leave })
  | .setUsername name => state.begin_ .owner (state.beginUsername name)
  | .enter userId =>
    -- Only an invited agent enters.
    state.begin_ .rooms (state.beginMember .rooms userId (·.membership = .invite) fun member =>
      { member with membership := .join })
  | .setMode userId mode =>
    state.begin_ .rooms (state.beginMember .rooms userId (·.membership = .join) fun member =>
      { member with listeningMode := mode })
  | .settle ok landed =>
    match state.pending with
    -- Nothing is settled while nothing waits.
    | [] => none
    | (path, task) :: rest =>
      let settled := if ok then state.apply task else state.applyFailed landed task
      some { settled with
        pending := rest
        running := Function.update state.running path ((state.running path).map fun running =>
          { running with result := some ok }) }
  -- The request goes on with the result of its write.
  | .resume path =>
    (state.running path).bind fun running => running.result.bind fun ok =>
      state.continue_ toLowerCase fold path running.stage ok

/-- The states that are reached from a new channel by steps that meet a condition. -/
inductive Reached (meets : State → Action → Prop) : State → Prop
  | start (username : Text) : Reached meets (.start username)
  | step {state after : State} {action : Action} (before : Reached meets state)
    (met : meets state action)
      (taken : state.step toLowerCase fold action = some after) : Reached meets after

end Khala.LocalNames
