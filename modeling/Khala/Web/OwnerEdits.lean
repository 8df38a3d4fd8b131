import Khala.Contracts.Decode
import Khala.Contracts.Names
import Khala.Js.Map
import Khala.Js.Members
import Mathlib.Logic.Relation

/-! The hosted web app's edits of a channel: the requests that each makes, and what the homeserver
makes of them. -/

namespace Khala.OwnerEdits

open Js Decode

/-- The content of a state event, or of account data. -/
abbrev Content := Map Text Json

/-! ## Colours -/

def channelColorsMemberKey : Text := lit "com.khala.colors"

def isHumanColorId (text : Text) : Bool :=
  [lit "red", lit "orange", lit "amber", lit "lime", lit "green", lit "teal", lit "blue",
    lit "indigo", lit "purple", lit "pink"].contains text

/-- A base colour, or a base colour with the number of one of its eight shades. -/
def isChannelColorKey : Json → Bool
  | .string value =>
    match value.splitOn 46 with
    | [id] => isHumanColorId id
    | [id, [shade]] => isHumanColorId id && 49 ≤ shade && shade ≤ 57 && digitValue shade ≤ 8
    | _ => false
  | _ => false

/-- The colours in a member event's content, without the parts that are no colours. -/
def memberChannelColors (content : Content) : Option Json :=
  match content.get channelColorsMemberKey with
  | some (.object raw) =>
    let color := (lookup raw (lit "color")).filter isChannelColorKey
    let agents := match lookup raw (lit "agents") with
      | some (.object agents) => agents.filter fun agent =>
        agent.1.head? = some 64 && isChannelColorKey agent.2
      | _ => []
    some (.object ((color.map (lit "color", ·)).toList ++ [(lit "agents", Json.object agents)]))
  | _ => none

/-! ## Listening modes -/

/-- `IDLE_MUTE_CHOICES`. -/
def idleMuteChoices : List Nat := [15, 60, 240, 1440, 0]

abbrev IdleMuteMinutes := { minutes : Nat // minutes ∈ idleMuteChoices }

/-- `DEFAULT_IDLE_MUTE_MIN`. -/
def defaultIdleMuteMin : IdleMuteMinutes := ⟨60, by decide⟩

/-- Whether a value is this number. -/
def isNumber (minutes : Nat) : Json → Bool
  | .number value => value = natNumber minutes
  | _ => false

def readModeLocked (content : Content) (userId : Text) : Bool :=
  match content.get userId with
  | some (.bool locked) => locked
  | _ => false

def readIdleMute (content : Content) (userId : Text) : Nat :=
  ((content.get userId).bind fun saved =>
    idleMuteChoices.find? (isNumber · saved)).getD defaultIdleMuteMin

/-- `/^@[^:\s]+:\S+$/`. -/
def isMatrixUserId : Text → Bool
  | 64 :: rest =>
    let isLocal := fun unit : CodeUnit => unit ≠ 58 && !isWhite unit
    match rest.dropWhile isLocal with
    | 58 :: server =>
      !(rest.takeWhile isLocal).isEmpty && !server.isEmpty && server.all (!isWhite ·)
    | _ => false
  | _ => false

/-! ## Calls -/

/-- `ARCHIVED_ACCOUNT_DATA_TYPE`, `MODE_LOCKS_ACCOUNT_DATA_TYPE` and `IDLE_MUTE_ACCOUNT_DATA_TYPE`.
-/
inductive DataType
  | archived | modeLocks | idleMute
deriving DecidableEq

/-- What a call asks of the homeserver, and awaits before it goes on. -/
inductive Request
  | updateOwnMember (change : Content → Content)
  | setRoomAccountData (type : DataType) (change : Content → Content)
  | send

/-- Why a call ends without a request. -/
inductive Refusal
  | invalidName (reason : NameError) | nameTaken | unavailable | failed

def archivedMemberKey : Text := lit "com.khala.archived"

def memberArchived (content : Content) : Bool :=
  match content.get archivedMemberKey with
  | some (.bool archived) => archived
  | _ => false

def isJoined (content : Content) : Bool :=
  match content.get (lit "membership") with
  | some (.string membership) => membership = lit "join"
  | _ => false

/-- The name must be none that another joined member has; `others` is nothing without a room. -/
def setOwnChannelName (toLowerCase : Text → Text) (others : Option (List Text)) (name : Text) :
    Except Refusal (List Request) :=
  match checkName name .username with
  | .error reason => .error (.invalidName reason)
  | .ok checked =>
    match others with
    | none => .error .unavailable
    | some others =>
      if others.any fun other => toLowerCase other = toLowerCase checked then .error .nameTaken
      else .ok [.updateOwnMember fun content => content.set (lit "displayname") (.string checked)]

def setOwnChannelColors (colors : Json) : Except Refusal (List Request) :=
  match memberChannelColors (Map.empty.set channelColorsMemberKey colors) with
  | none => .error .failed
  | some checked => .ok [.updateOwnMember fun content => content.set channelColorsMemberKey checked]

/-- `own` is the synced content of the viewer's member event. -/
def setOwnArchived (own : Option Content) (archived : Bool) (agents : List Text) :
    Except Refusal (List Request) :=
  match own with
  | none => .error .failed
  | some own =>
    if !isJoined own then .error .failed
    else .ok ([.setRoomAccountData .archived fun _ =>
      if archived then Map.empty.set (lit "archived") (.bool true) else .empty]
      ++ (if agents.isEmpty then [] else [.send])
      ++ if memberArchived own
        then [.updateOwnMember fun content => content.delete archivedMemberKey] else [])

/-- A key is set, or deleted. -/
def save (userId : Text) (value : Option Json) (content : Content) : Content :=
  match value with
  | some value => content.set userId value
  | none => content.delete userId

def lockValue (locked : Bool) : Option Json := if locked then some (.bool true) else none

def timeoutValue (minutes : IdleMuteMinutes) : Option Json :=
  if minutes = defaultIdleMuteMin then none else some (.number (natNumber minutes))

def sendListeningMode (encrypted : Bool) (userId : Text) (locked : Option Bool)
    (idleMuteMin : Option IdleMuteMinutes) :
    Except Refusal (List Request) :=
  if !encrypted || !isMatrixUserId userId then .error .failed
  else .ok ((locked.map fun locked =>
    .setRoomAccountData .modeLocks (save userId (lockValue locked))).toList
    ++ (idleMuteMin.map fun minutes =>
      .setRoomAccountData .idleMute (save userId (timeoutValue minutes))).toList
    ++ [Request.send])

/-- A call with what it finds in the synced room. -/
inductive Call
  | setOwnChannelName (others : Option (List Text)) (name : Text)
  | setOwnChannelColors (colors : Json)
  | setOwnArchived (own : Option Content) (archived : Bool) (agents : List Text)
  | sendListeningMode (encrypted : Bool) (userId : Text) (locked : Option Bool)
    (idleMuteMin : Option IdleMuteMinutes)

def Call.requests (toLowerCase : Text → Text) : Call → Except Refusal (List Request)
  | .setOwnChannelName others name => OwnerEdits.setOwnChannelName toLowerCase others name
  | .setOwnChannelColors colors => OwnerEdits.setOwnChannelColors colors
  | .setOwnArchived own archived agents => OwnerEdits.setOwnArchived own archived agents
  | .sendListeningMode encrypted userId locked idleMuteMin =>
    OwnerEdits.sendListeningMode encrypted userId locked idleMuteMin

/-! ## The tab and the homeserver -/

/-- A request that waits for its turn, that is under way, or that the homeserver has taken. -/
inductive Progress
  | waiting | sent | received
deriving DecidableEq

/-- A call, its requests from the one that it awaits on, and whether it has failed. -/
structure Running where
  call : Call
  requests : List Request
  progress : Progress
  failed : Bool

/-- The call has returned `sent`. -/
def Running.Done (running : Running) : Prop := running.failed = false ∧ running.requests = []

inductive Target
  | member | data (type : DataType)
deriving DecidableEq

/-- A write that the homeserver has not received. -/
structure Write where
  index : Nat
  target : Target
  content : Content

/-- An entry of the queue of writes to the viewer's member event. -/
structure Turn where
  index : Nat
  change : Content → Content
  read : Bool

/-- What the homeserver holds, the copies that syncs brought, and the calls in the order in which
they were made. -/
structure Tab where
  member : Content
  data : DataType → Content
  past : DataType → List Content
  synced : DataType → Content
  ownMemberWrites : List Turn
  flying : List Write
  running : List Running

/-- A call goes on to the next of its requests. -/
def Tab.launch (tab : Tab) (index : Nat) : List Request → Tab × Progress
  | .updateOwnMember change :: _ =>
    ({ tab with ownMemberWrites := tab.ownMemberWrites ++ [⟨index, change, false⟩] }, .waiting)
  | .setRoomAccountData type change :: _ =>
    ({ tab with flying := tab.flying ++ [⟨index, .data type, change (tab.synced type)⟩] }, .sent)
  | .send :: _ => (tab, .received)
  | [] => (tab, .received)

def Tab.begin (tab : Tab) (toLowerCase : Text → Text) (call : Call) : Tab :=
  match call.requests toLowerCase with
  | .error _ => { tab with running := tab.running ++ [⟨call, [], .received, true⟩] }
  | .ok requests =>
    let (launched, progress) := tab.launch tab.running.length requests
    { launched with running := tab.running ++ [⟨call, requests, progress, false⟩] }

def Tab.update (tab : Tab) (index : Nat) (running : Running) : Tab :=
  { tab with running := tab.running.set index running }

/-- The homeserver answers the read of the member event of the turn that is first, and the changed
content is sent; without a membership the call fails. -/
def Tab.read (tab : Tab) (turn : Turn) (running : Running) : Tab :=
  if isJoined tab.member then
    -- The change is made to what was read, and the membership is kept.
    let changed := (turn.change tab.member).set (lit "membership") (.string (lit "join"))
    let asked : Tab := { tab with
      ownMemberWrites := { turn with read := true } :: tab.ownMemberWrites.tail
      flying := tab.flying ++ [⟨turn.index, .member, changed⟩] }
    asked.update turn.index { running with progress := .sent }
  -- Who is no member writes nothing, and gives the turn on.
  else
    let given : Tab := { tab with ownMemberWrites := tab.ownMemberWrites.tail }
    given.update turn.index { running with failed := true }

/-- The homeserver takes a write. -/
def Tab.receive (tab : Tab) (before after : List Write) (write : Write) (running : Running) : Tab :=
  let taken : Tab := match write.target with
    | .member => { tab with member := write.content }
    | .data type => { tab with
        data := Function.update tab.data type write.content
        past := Function.update tab.past type (tab.data type :: tab.past type) }
  { taken with flying := before ++ after }.update write.index { running with progress := .received }

/-- A member write gives up its turn. -/
def Tab.leave (tab : Tab) (index : Nat) : Tab :=
  { tab with ownMemberWrites := tab.ownMemberWrites.filter (·.index ≠ index) }

/-- A request has returned. -/
def Tab.goOn (tab : Tab) (index : Nat) (running : Running) : Tab :=
  let (launched, progress) := (tab.leave index).launch index running.requests.tail
  launched.update index { running with requests := running.requests.tail, progress }

/-- A request fails, and its call with it; the homeserver may still have it on its way. -/
def Tab.fail (tab : Tab) (index : Nat) (running : Running) : Tab :=
  (tab.leave index).update index { running with failed := true }

/-- The account data that the first of requests saves. -/
def saving : List Request → Option DataType
  | .setRoomAccountData type _ :: _ => some type
  | _ => none

-- The runtime's lower case, and what is asked when a call reads the synced copy of account data to
-- save it.
variable (toLowerCase : Text → Text) (met : Tab → Nat → Call → DataType → Prop)

/-- One step of the tab, of the homeserver or of a sync. -/
inductive Step : Tab → Tab → Prop
  /-- A call begins, while nobody else saves what it saves. -/
  | begins {tab : Tab} (call : Call) :
    (∀ requests, call.requests toLowerCase = .ok requests → ∀ type ∈ saving requests,
      met tab tab.running.length call type) →
    Step tab (tab.begin toLowerCase call)
  /-- The first turn reads the profile. -/
  | reads {tab : Tab} {turn : Turn} {running : Running} :
    tab.ownMemberWrites.head? = some turn → turn.read = false →
    tab.running[turn.index]? = some running → Step tab (tab.read turn running)
  /-- A write reaches the server, in any order. -/
  | receives {tab : Tab} {before after : List Write} {write : Write} {running : Running} :
    tab.flying = before ++ write :: after → tab.running[write.index]? = some running →
    Step tab (tab.receive before after write running)
  /-- A call goes on after its answer. -/
  | returns {tab : Tab} {index : Nat} {running : Running} :
    tab.running[index]? = some running → running.failed = false → running.progress = .received →
    running.requests ≠ [] →
    (∀ type ∈ saving running.requests.tail, met tab index running.call type) →
    Step tab (tab.goOn index running)
  /-- A request fails. -/
  | fails {tab : Tab} {index : Nat} {running : Running} :
    tab.running[index]? = some running → running.requests ≠ [] →
    (running.progress = .waiting → tab.ownMemberWrites.head?.map (·.index) = some index) →
    Step tab (tab.fail index running)
  /-- A sync brings a state that the server had. -/
  | syncs {tab : Tab} {type : DataType} {content : Content} :
    content ∈ tab.data type :: tab.past type →
    Step tab { tab with synced := Function.update tab.synced type content }

/-- What the tab comes to. -/
abbrev Steps : Tab → Tab → Prop := Relation.ReflTransGen (Step toLowerCase met)

/-- A tab in which no call was made yet. -/
def Tab.Fresh (tab : Tab) : Prop := tab.ownMemberWrites = [] ∧ tab.flying = [] ∧ tab.running = []

/-! ## What calls set -/

/-- The name that a call sets. -/
def Call.name : Call → Option Text
  | .setOwnChannelName _ name => (checkName name .username).toOption
  | _ => none

/-- The colours that a call sets. -/
def Call.colors : Call → Option Json
  | .setOwnChannelColors colors => memberChannelColors (Map.empty.set channelColorsMemberKey colors)
  | _ => none

/-- The lock that a call sets for an agent. -/
def Call.lock (agent : Text) : Call → Option Bool
  | .sendListeningMode _ userId locked _ => if userId = agent then locked else none
  | _ => none

/-- The listener timeout that a call sets for an agent. -/
def Call.timeout (agent : Text) : Call → Option IdleMuteMinutes
  | .sendListeningMode _ userId _ idleMuteMin => if userId = agent then idleMuteMin else none
  | _ => none

/-- What the last call that sets something sets. -/
def lastOf {α : Type} (sets : Call → Option α) (tab : Tab) : Option α :=
  (tab.running.filterMap (sets ·.call)).getLast?

end Khala.OwnerEdits
