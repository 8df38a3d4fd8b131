import Khala.Js.Map
import Khala.Js.Text

/-! The secrets of local channels: join links and agents' tokens, kept in memory beside one file per
channel, changed one call at a time and read at any time. -/

namespace Khala.LocalSecrets

open Js

inductive LocalUser
  | owner
  /-- `@agent-<digits>:local`. -/
  | agent (digits : UInt32)
deriving DecidableEq, Repr

structure Agent where
  roomId : Text
  userId : LocalUser
deriving DecidableEq, Repr

/-- A join link; its times are the instants that their texts spell. -/
structure Link where
  expiresAt : Int
  consumedAt : Option Int
  /-- Which link it is: the number of links that were made before it. -/
  number : Nat
deriving DecidableEq, Repr

/-- A member's secret; a hash stands for its hexadecimal digits. -/
structure MemberSecret (δ : Type) where
  tokenSha256 : δ
  sessionKey : Option δ
deriving DecidableEq

/-- `ChannelSecrets`. -/
structure ChannelSecrets (δ : Type) where
  links : Map δ Link
  members : Map LocalUser (MemberSecret δ)

def emptySecrets {δ : Type} : ChannelSecrets δ := ⟨.empty, .empty⟩

/-- `LOCAL_LINK_TTL_MS`. -/
def linkTtlMs : Int := 600000

/-- Times that are written with a year of four digits, the only ones that are read again. -/
def fourDigitYear (ms : Int) : Bool := -62167219200000 ≤ ms && ms < 253402300800000

/-- A reading of the clock. -/
structure ClockReading where
  ms : Int
  dated : fourDigitYear ms = true ∧ fourDigitYear (ms + linkTtlMs) = true

/-- What becomes of a channel's tokens, seen from its directory. -/
inductive Change (δ : Type)
  | links
  | token (userId : LocalUser) (tokenSha256 : Option δ)
  /-- The directory no longer holds a channel. -/
  | gone
  /-- It holds a channel without secrets. -/
  | emptied
deriving DecidableEq

/-- What happens to the secrets, as far as others can tell. -/
inductive Event (δ : Type)
  /-- `createChannel` is answered. -/
  | created (roomId : Text)
  /-- A link is being made; the call that makes it may still fail. -/
  | minting (number : Nat) (roomId : Text) (hash : δ) (expiresAt : Int)
  /-- `mintLink`, `consumeLink` or `setMemberToken` is answered: its change is in the directory and
  in memory. -/
  | saved (roomId : Text) (change : Change δ)
  /-- The call that was just saved is answered with this link, which had been found not to be
  expired at that time. -/
  | consumed (number : Nat) (at_ : Int)
  /-- `deleteChannel` is answered. -/
  | deleted (roomId : Text)
  /-- A call failed or was cut off; its change may be in the directory, but not in memory. -/
  | failed (roomId : Text) (change : Change δ)
  /-- The store is opened again and finds these changes of calls that failed or were cut off. -/
  | reopened (late : Map Text (Change δ))
  /-- `agentForToken` is answered. -/
  | asked (hash : δ) (answer : Option Agent)

/-! ## The store -/

/-- A channel's directory: whether its log is there, and its secrets. -/
structure Dir (δ : Type) where
  log : Bool
  secrets : Option (ChannelSecrets δ)

/-- A call that changes secrets. -/
inductive Task (δ : Type)
  | createChannel
  | mintLink (roomId : Text)
  | consumeLink (token : Text)
  | setMemberToken (roomId : Text) (userId : LocalUser) (tokenSha256 sessionKey : Option δ)
  | deleteChannel (roomId : Text)

/-- A task that waits for the file system. -/
inductive Running (δ : Type)
  | create (roomId : Text)
  | save (roomId : Text) (secrets : ChannelSecrets δ) (change : Change δ)
    (consumes : Option (Nat × Int))
  | remove (roomId : Text)

/-- The store as the process has it, beside the directories. -/
structure Store (δ : Type) where
  disk : Map Text (Dir δ)
  channels : Map Text (ChannelSecrets δ)
  deletedAgentTokens : Map δ Agent
  queue : List (Task δ)
  running : Option (Running δ)
  /-- How many links were made so far. -/
  made : Nat
  /-- How the directories differ from the channels in memory. -/
  late : Map Text (Change δ)

def Store.empty {δ : Type} : Store δ := ⟨.empty, .empty, .empty, [], none, 0, .empty⟩

/-- `/^[A-Za-z0-9_-]{43}$/`. -/
def isLinkToken (token : Text) : Bool :=
  token.length == 43 && token.all fun u =>
    (48 ≤ u && u ≤ 57) || (65 ≤ u && u ≤ 90) || (97 ≤ u && u ≤ 122) || u == 95 || u == 45

/-- What a task draws and reads when it begins. -/
structure Choice where
  roomId : Text
  token : Text
  now : ClockReading
  /-- The second reading of a task that reads the clock twice. -/
  later : ClockReading

variable {δ : Type} [DecidableEq δ] (sha256 : Text → δ)

/-- The first channel with a link for the hash that may be consumed. -/
def findLink (hash : δ) (now : Int) :
    List (Text × ChannelSecrets δ) → Option (Text × ChannelSecrets δ × Link)
  | [] => none
  | (roomId, secrets) :: rest =>
    match secrets.links.get hash with
    | some link => if link.consumedAt = none ∧ now < link.expiresAt
      then some (roomId, secrets, link) else findLink hash now rest
    | none => findLink hash now rest

/-- `next` of `setMemberToken`. -/
def nextMembers (members : Map LocalUser (MemberSecret δ)) (userId : LocalUser)
    (tokenSha256 sessionKey : Option δ) :
    Map LocalUser (MemberSecret δ) :=
  match tokenSha256 with
  | none => members.delete userId
  | some token =>
    if userId = .owner then members
    else members.set userId ⟨token, sessionKey.or ((members.get userId).bind (·.sessionKey))⟩

/-- What a task does before it first waits: it ends there, or it goes on to the file system. -/
def Store.beginTask (store : Store δ) (choice : Choice) : Task δ → Option (Store δ × List (Event δ))
  | .createChannel =>
    -- Only a name that nobody uses is taken.
    if (store.channels.get choice.roomId).isSome || (store.disk.get choice.roomId).isSome then none
    else some ({ store with running := some (.create choice.roomId) }, [])
  | .mintLink roomId =>
    match store.channels.get roomId with
    | none => some (store, [])
    | some secrets =>
      let hash := sha256 choice.token
      let link : Link := ⟨choice.now.ms + linkTtlMs, none, store.made⟩
      some ({ store with
        made := store.made + 1
        running := some (.save roomId { secrets with links := secrets.links.set hash link } .links none) },
        [.minting store.made roomId hash link.expiresAt])
  | .consumeLink token =>
    if !isLinkToken token then some (store, [])
    else match findLink (sha256 token) choice.now.ms store.channels.entries with
      | none => some (store, [])
      | some (roomId, secrets, link) =>
        let consumed := { link with consumedAt := some choice.later.ms }
        some ({ store with
          running := some (.save roomId { secrets with links := secrets.links.set (sha256 token) consumed } .links
            (some (link.number, choice.now.ms))) }, [])
  | .setMemberToken roomId userId tokenSha256 sessionKey =>
    match store.channels.get roomId with
    | none => some (store, [])
    | some secrets =>
      some ({ store with
        running := some (.save roomId { secrets with members := nextMembers secrets.members userId tokenSha256 sessionKey }
          (if userId = .owner then .links else .token userId tokenSha256) none) }, [])
  | .deleteChannel roomId =>
    if (store.channels.get roomId).isSome
      then some ({ store with running := some (.remove roomId) }, [])
    else some (store, [])

/-- Tombstones of a deleted channel's agents. -/
def buryTokens (roomId : Text) (members : List (LocalUser × MemberSecret δ))
    (buried : Map δ Agent) : Map δ Agent :=
  members.foldl (fun buried entry =>
    if entry.1 = .owner then buried else buried.set entry.2.tokenSha256 ⟨roomId, entry.1⟩) buried

/-- The difference that is left when a channel's secrets were saved: a log that is gone stays gone.
-/
def lateAfterSave (late : Map Text (Change δ)) (roomId : Text) : Map Text (Change δ) :=
  if late.get roomId = some .gone then late else late.delete roomId

/-- The file system has done what the running task asked of it. -/
def Store.finishTask (store : Store δ) : Running δ → Option (Store δ × List (Event δ))
  | .create roomId =>
    some ({ store with
      -- The directory is complete, and the channel is in memory.
      running := none
      disk := store.disk.set roomId ⟨true, some emptySecrets⟩
      channels := store.channels.set roomId emptySecrets
      late := store.late.delete roomId }, [.created roomId])
  | .save roomId secrets change consumes =>
    -- The secrets are written to a directory that is there.
    (store.disk.get roomId).map fun dir =>
      ({ store with
        running := none
        disk := store.disk.set roomId { dir with secrets := some secrets }
        channels := store.channels.set roomId secrets
        late := lateAfterSave store.late roomId },
      .saved roomId change :: (consumes.map fun consumed =>
        Event.consumed consumed.1 consumed.2).toList)
  | .remove roomId =>
    (store.channels.get roomId).map fun secrets =>
      ({ store with
        running := none
        disk := store.disk.delete roomId
        channels := store.channels.delete roomId
        -- Its tokens are kept, so that they are told apart from unknown ones.
        deletedAgentTokens := buryTokens roomId secrets.members.entries store.deletedAgentTokens
        late := store.late.delete roomId }, [.deleted roomId])

/-- How far the file system gets with a task that fails or is cut off: what is left of its channel's
log and secrets. -/
structure Remains where
  /-- Whether there is anything left of what was made or was to be removed. -/
  dir : Bool
  log : Bool
  secrets : Bool

/-- The difference a failed task leaves, unless the log was gone before. -/
def lateAfterFailure (late : Map Text (Change δ)) (roomId : Text) (change : Change δ) :
    Map Text (Change δ) :=
  if late.get roomId = some .gone then late else late.set roomId change

/-- A task that fails, or is cut off, has done a part of what it asked of the file system. -/
def Store.failTask (store : Store δ) (remains : Remains) : Running δ → Store δ × List (Event δ)
  | .create roomId =>
    -- A channel that could not be made is removed again, as far as that works.
    if !remains.dir then ({ store with running := none }, [.failed roomId .emptied])
    else ({ store with
      running := none
      disk := store.disk.set roomId ⟨remains.log, if remains.secrets
        then some emptySecrets else none⟩
      late := if remains.log then store.late.set roomId .emptied else store.late },
      [.failed roomId .emptied])
  | .save roomId secrets change _ =>
    match store.disk.get roomId, remains.secrets with
    | some dir, true => ({ store with
        running := none
        disk := store.disk.set roomId { dir with secrets := some secrets }
        late := lateAfterFailure store.late roomId change }, [.failed roomId change])
    | _, _ => ({ store with running := none }, [.failed roomId change])
  | .remove roomId =>
    match store.disk.get roomId with
    | none => ({ store with running := none }, [.failed roomId .gone])
    | some dir =>
      if !remains.dir then
        ({ store with running := none, disk := store.disk.delete roomId,
                      late := store.late.set roomId .gone }, [.failed roomId .gone])
      else if dir.log && !remains.log then
        ({ store with
          running := none
          disk := store.disk.set roomId ⟨false, if remains.secrets then dir.secrets else none⟩
          late := store.late.set roomId .gone }, [.failed roomId .gone])
      else if dir.secrets.isSome && !remains.secrets then
        ({ store with
          running := none
          disk := store.disk.set roomId ⟨dir.log, none⟩
          late := lateAfterFailure store.late roomId .emptied }, [.failed roomId .emptied])
      else ({ store with running := none }, [.failed roomId .gone])

/-- `decodeChannelSecrets`, for what the store writes: times with years of four digits, and secrets
of agents only. -/
def ChannelSecrets.readable (secrets : ChannelSecrets δ) : Bool :=
  (secrets.links.entries.all fun entry =>
    fourDigitYear entry.2.expiresAt && entry.2.consumedAt.all fourDigitYear)
    && secrets.members.entries.all fun entry => entry.1 ≠ .owner

/-- The channel that is opened from a directory: one whose secrets cannot be read has none. -/
def Dir.open_ (dir : Dir δ) : Option (ChannelSecrets δ) :=
  if dir.log then
    match dir.secrets with
    | some secrets => some (if secrets.readable then secrets else emptySecrets)
    | none => some emptySecrets
  else none

/-- `openLocalStore`: the channels, from the directories in the order in which they are listed. -/
def openChannels (disk : Map Text (Dir δ)) (order : List Text) : Map Text (ChannelSecrets δ) :=
  order.foldl (fun channels roomId =>
    match (disk.get roomId).bind Dir.open_ with
    | some secrets => channels.set roomId secrets
    | none => channels) .empty

/-- The last of the agents whose secret has the hash, if there is one. -/
def lastWithHash (hash : δ) (agents : List (δ × Agent)) (found : Option Agent) : Option Agent :=
  agents.foldl (fun result agent => if agent.1 = hash then some agent.2 else result) found

/-- The agents of the channels with their tokens. -/
def channelAgents (channels : List (Text × ChannelSecrets δ)) : List (δ × Agent) :=
  channels.flatMap fun channel =>
    (channel.2.members.entries.filter fun entry => entry.1 ≠ .owner).map fun entry =>
    (entry.2.tokenSha256, ⟨channel.1, entry.1⟩)

/-- `agentForToken`, by the token's hash. -/
def Store.agentForToken (store : Store δ) (hash : δ) : Option Agent :=
  lastWithHash hash (channelAgents store.channels.entries)
    (lastWithHash hash store.deletedAgentTokens.entries none)

inductive Action (δ : Type)
  | call (task : Task δ)
  | begin (choice : Choice)
  | finish
  | fail (remains : Remains)
  | ask (token : Text)
  /-- The process ends, wherever it is, and the store is opened again. -/
  | reopen (remains : Remains) (order : List Text)

/-- What is left of the running task when the process ends. -/
def Store.cutOff (store : Store δ) (remains : Remains) : Store δ × List (Event δ) :=
  match store.running with
  | some running => store.failTask remains running
  | none => (store, [])

/-- One action, if it can be taken, with what others can tell of it. -/
def Store.step (store : Store δ) : Action δ → Option (Store δ × List (Event δ))
  | .call task => some ({ store with queue := store.queue ++ [task] }, [])
  | .begin choice =>
    match store.running, store.queue with
    -- Tasks run one after the other.
    | none, task :: rest => { store with queue := rest : Store δ }.beginTask sha256 choice task
    | _, _ => none
  | .finish => store.running.bind store.finishTask
  | .fail remains => store.running.map (store.failTask remains)
  | .ask token => some (store, [.asked (sha256 token) (store.agentForToken (sha256 token))])
  | .reopen remains order =>
    -- What was running is cut off, and all the directories are opened in some order.
    let (left, events) := store.cutOff remains
    if order.Perm left.disk.keys then
      some (⟨left.disk, openChannels left.disk order, .empty, [], none, left.made, .empty⟩,
        events ++ [Event.reopened left.late])
    else none

/-- Every sequence of actions from an empty store, with what others can tell of it. -/
inductive Run : List (Event δ) → Store δ → Prop
  | empty : Run [] .empty
  | step {log : List (Event δ)} {store after : Store δ} {action : Action δ}
    {events : List (Event δ)}
      (before : Run log store) (taken : store.step sha256 action = some (after, events)) :
      Run (log ++ events) after

end Khala.LocalSecrets
