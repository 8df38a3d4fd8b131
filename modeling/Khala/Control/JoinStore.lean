import Khala.Js.Text
import Khala.Concurrent.Machine
import Khala.Concurrent.Register

/-! The records of agents that join a channel, and the store that keeps them by compare-and-set. -/

namespace Khala.AgentJoin

open Js Concurrent

/-! ## Records -/

def JOIN_TTL_MS : Int := 600000
def JOIN_RETENTION_MS : Int := 86400000

inductive JoinState
  | pending
  | confirmed
  | claimed
  | ready
  | expired
deriving DecidableEq

/-- `rejoinApproval` of a record. -/
structure RecordApproval where
  ownerLabel : Text
  generation : Nat
deriving DecidableEq

/-- A stored join; both times stand for their canonical texts. -/
structure JoinRecord where
  joinId : Text
  pollSecretHash : Text
  /-- The channel's name. -/
  roomId : Text
  channelName : Text
  label : Text
  harness : Text
  state : JoinState
  createdAt : Int
  expiresAt : Int
  /-- The owner's label and generation, when a rejoin was approved. -/
  rejoinApproval : Option RecordApproval
  rejoinSecretHash : Option Text
  rejoin : Bool
  sessionId : Option Text
  /-- Who confirms the join. -/
  ownerId : Option Text
  agentUserId : Option Text
  /-- The credentials, until the agent has fetched them. -/
  sealedCredentials : Option Text
  sealedInvite : Option Text
  /-- Who made the invite. -/
  issuerOwnerId : Option Text
deriving DecidableEq

structure AgentCredentials where
  homeserver : Text
  userId : Text
  accessToken : Text
  deviceId : Text
  roomId : Text
  transport : Option Text
deriving DecidableEq

/-- The functions without effects that the handlers use and that no result depends on: digests,
sealing with the service's secret, and names. -/
structure JoinDeps where
  validateAgentName : Text → Option Text
  /-- SHA-256 in hexadecimal. -/
  hashPollSecret : Text → Text
  /-- SHA-256 of the room, the harness, the session and the hash of its rejoin secret. -/
  sessionDigest : Text → Text → Text → Text → Text
  agentUserId : Text → Text → Text
  openCredentials : Text → Text → Option AgentCredentials
  openInvite : Text → Text → Option Text
  freeAgentName : Text → Text → List Text → Text → Text

variable (deps : JoinDeps)

def effectiveState (record : JoinRecord) (now : Int) : JoinState :=
  if (record.state = .pending ∨ record.state = .confirmed) ∧ record.expiresAt ≤ now then .expired
    else record.state

def isWordUnit (u : CodeUnit) : Bool :=
  (48 ≤ u && u ≤ 57) || (65 ≤ u && u ≤ 90) || (97 ≤ u && u ≤ 122) || u == 95 || u == 45

def isHexUnit (u : CodeUnit) : Bool := (48 ≤ u && u ≤ 57) || (97 ≤ u && u ≤ 102)

def isLower (u : CodeUnit) : Bool := 97 ≤ u && u ≤ 122

def isJoinId (value : Text) : Bool := value.length == 22 && value.all isWordUnit

def isSha256 (value : Text) : Bool := value.length == 64 && value.all isHexUnit

/-- `HARNESS_ID`. -/
def isHarnessId : Text → Bool
  | [] => false
  | first :: rest => isLower first && 1 ≤ rest.length && rest.length ≤ 23
    && rest.all fun u => isLower u || (48 ≤ u && u ≤ 57) || u == 45

def validAgentSessionId : Text → Bool
  | [] => false
  | first :: rest => isWordUnit first && first != 95 && first != 45 && rest.length ≤ 127
    && rest.all fun u => isWordUnit u || u == 46 || u == 58

/-- What `decodeJoinRecord` asks of a record beyond the types of its fields. -/
def decodeJoinRecord (record : JoinRecord) : Option JoinRecord :=
  -- No text that is there is empty.
  let optional := [record.rejoinSecretHash, record.sessionId, record.ownerId, record.agentUserId,
    record.sealedCredentials, record.sealedInvite, record.issuerOwnerId]
  let ok := record.sessionId.all validAgentSessionId
    && record.rejoinSecretHash.all isSha256
    && record.rejoinApproval.all (fun approval => approval.ownerLabel ≠ [])
    && optional.all (fun value => value ≠ some [])
    && isJoinId record.joinId && isSha256 record.pollSecretHash
    && record.roomId ≠ [] && record.channelName ≠ [] && isHarnessId record.harness
    && deps.validateAgentName record.label = some record.label && (codePoints record.label).length
      ≤ 40
    && record.expiresAt = record.createdAt + JOIN_TTL_MS
    -- Credentials are there from the confirmation on, until they are claimed.
    && !(record.state = .confirmed && record.sealedCredentials.isNone)
    && !((record.state = .claimed || record.state = .ready) && record.sealedCredentials.isSome)
  if ok then some record else none

/-- What an agent's request to join stores. -/
def newJoinRecord (joinId pollSecret roomId channelName label harness : Text) (now : Int)
    (rejoinSecret sessionId : Option Text) (sealedInvite creatorOwnerId : Text) : JoinRecord where
  joinId := joinId
  pollSecretHash := deps.hashPollSecret pollSecret
  roomId := roomId
  channelName := channelName
  label := label
  harness := harness
  state := .pending
  createdAt := now
  expiresAt := now + JOIN_TTL_MS
  rejoinApproval := none
  rejoinSecretHash := rejoinSecret.map deps.hashPollSecret
  rejoin := false
  sessionId := sessionId
  ownerId := none
  agentUserId := none
  sealedCredentials := none
  sealedInvite := some sealedInvite
  issuerOwnerId := some creatorOwnerId

/-- A secret proves possession only within this room, harness and session. -/
def rejoinIdentity (record : JoinRecord) : Option Text := do
  let sessionId ← record.sessionId
  let rejoinSecretHash ← record.rejoinSecretHash
  return lit "session." ++ deps.sessionDigest record.roomId record.harness sessionId
    rejoinSecretHash

/-- The identity under which the agent of a join is provisioned. -/
def identityOf (record : JoinRecord) : Text := (rejoinIdentity deps record).getD record.joinId

/-! ## Effects -/

/-- The step of a join that a write makes; it is part of the operation's identity. -/
inductive Transition
  | create
  | expire
  | owner
  | name
  | confirm
  | claim
  | ready
deriving DecidableEq

/-- `agent-join.<joinId>.<transition>.<random>`. -/
structure JoinOperation where
  joinId : Text
  transition : Transition
  random : Nat
deriving DecidableEq

structure CompareAndSetJoin where
  joinId : Text
  expectedRevision : Option Nat
  operationId : JoinOperation
  next : JoinRecord

inductive Membership
  | joined
  | absent
  | unavailable
deriving DecidableEq

/-- A record under another key, decoded when it can be. -/
inductive Lookup (α : Type)
  | absent
  | record (value : Option α)
  | unavailable

structure AgentOwnerRecord where
  matrixUserId : Text
  ownerId : Text
  ownerLabel : Text
  harness : Text
  label : Text
  createdAt : Int

structure NameReservation where
  matrixUserId : Text
  ownerId : Text

structure RejoinApproval where
  ownerId : Text
  ownerLabel : Text
  generation : Nat
  revoked : Bool

structure OwnerRemoval where
  complete : Bool
  generation : Nat

structure RoomRemovals where
  generation : Nat
  owners : Text → Option OwnerRemoval

/-- Why an invite keeps a human out. -/
inductive InviteRefusal
  | identityMismatch
  | expired
  | revoked
  | authRequired
  | forbidden
  | other
deriving DecidableEq

/-- What the handlers ask of the rest of the service: records under other keys, the homeserver,
admission. -/
inductive Question
  | inspectMembership (ownerId roomId : Text)
  | nameReservation (label : Text)
  | releaseName (joinId label : Text)
  | usernameOf (ownerId verifiedEmail : Text) (fallbackUsername : Option Text)
  | rememberApproval (record : JoinRecord) (ownerLabel : Text) (generation : Nat)
    (repairOnly : Bool)
  | rejoinApproval (identity : Text)
  | revokeApproval (joinId identity : Text)
  | setAgentRemoved (roomId userId : Text) (removed : Bool)
  | agentRemoved (roomId userId : Text)
  | agentOwner (userId : Text)
  | writeAgentOwner (owner : AgentOwnerRecord)
  | roomMemberNames (ownerId roomId : Text)
  | readRoomRemovals (roomId : Text)
  | rememberRoomAgent (roomId ownerId userId : Text)
  | provision (joinId : Text) (identityId : Option Text) (ownerId label roomId : Text)
  | rememberAgentSession (credentials : AgentCredentials) (issuedGeneration : Nat)
  | revokeAgentSession (userId roomId : Text)
  | sealCredentials (joinId : Text) (credentials : AgentCredentials)
  | indexOwnerAgent (ownerId userId : Text)
  | inviteAgent (ownerId roomId userId : Text)
  | admissionFor (ownerId : Text)
  /-- Looks at an invite, or admits the human by it. -/
  | invite (admits : Bool) (joinId ownerId inviteRef : Text)
  | readApproveJoins (roomId : Text)

abbrev Question.Reply : Question → Type
  | inspectMembership .. => Membership
  | nameReservation .. => Lookup NameReservation
  | releaseName .. => WriteReply Unit
  | usernameOf .. => Option Text
  | rememberApproval .. => Bool
  | rejoinApproval .. => Lookup RejoinApproval
  | revokeApproval .. => WriteReply Unit
  | setAgentRemoved .. => Bool
  | agentRemoved .. => Option Bool
  | agentOwner .. => Lookup AgentOwnerRecord
  | writeAgentOwner .. => WriteReply AgentOwnerRecord
  | roomMemberNames .. => Option (List Text)
  | readRoomRemovals .. => Option (Option RoomRemovals)
  | rememberRoomAgent .. => Bool
  | provision .. => Option AgentCredentials
  | rememberAgentSession .. => Bool
  | revokeAgentSession .. => Bool
  | sealCredentials .. => Text
  | indexOwnerAgent .. => Unit
  | inviteAgent .. => Bool
  | admissionFor .. => Bool
  | invite .. => Option InviteRefusal
  | readApproveJoins .. => Option Bool

inductive JoinOp
  | read (joinId : Text)
  | compareAndSet (input : CompareAndSetJoin)
  | resolve (joinId : Text) (operationId : JoinOperation)
  | clock
  | random
  | ask (question : Question)

/-- A question may fail with an exception, which no handler catches before it answers. -/
abbrev JoinOp.Reply : JoinOp → Type
  | read _ => ReadReply JoinRecord
  | compareAndSet _ => WriteReply JoinRecord
  | resolve _ _ => ResolveReply JoinRecord
  | clock => Int
  | random => Nat
  | ask question => Option question.Reply

abbrev joinEffects : Interface := ⟨JoinOp, JoinOp.Reply⟩

abbrev JoinProgram := Program joinEffects

def safeRead (joinId : Text) : JoinProgram (ReadReply JoinRecord) :=
  @Program.call joinEffects (.read joinId)

def clock : JoinProgram Int := @Program.call joinEffects .clock

def random : JoinProgram Nat := @Program.call joinEffects .random

def ask (question : Question) : JoinProgram (Option question.Reply) :=
  @Program.call joinEffects (.ask question)

def compareAndSet (input : CompareAndSetJoin) : JoinProgram (WriteReply JoinRecord) :=
  @Program.call joinEffects (.compareAndSet input)

def resolve (joinId : Text) (operationId : JoinOperation) : JoinProgram (ResolveReply JoinRecord) :=
  @Program.call joinEffects (.resolve joinId operationId)

/-! ## The store of joins -/

def writeAndResolve (input : CompareAndSetJoin) : JoinProgram (WriteReply JoinRecord) := do
  match ← compareAndSet input with
  | .outcomeUnknown =>
    match ← resolve input.joinId input.operationId with
    | .applied revision data => return .applied revision data
    | .notApplied => compareAndSet input
    -- A failed read-back does not make the write definitely absent.
    | _ => return .outcomeUnknown
  | reply => return reply

inductive Replaced
  | applied (revision : Nat)
  | conflict
  | unknown
  | unavailable

def replace (joinId : Text) (revision : Option Nat) (next : JoinRecord) (transition : Transition) :
    JoinProgram Replaced := do
  let nonce ← random
  match ← writeAndResolve ⟨joinId, revision, ⟨joinId, transition, nonce⟩, next⟩ with
  | .applied revision _ => return .applied revision
  | .conflict _ => return .conflict
  | .outcomeUnknown => return .unknown
  | _ => return .unavailable

inductive JoinRead
  | found (record : JoinRecord) (revision : Nat)
  | absent
  | unavailable

/-- The end of a read: an expired join gives back the name it had reserved. -/
def releaseReservation (record : JoinRecord) (revision : Nat) : JoinProgram JoinRead := do
  match record.agentUserId, record.ownerId with
  | some agentUserId, some ownerId =>
    if record.state = .expired ∧ record.rejoin = false then
      match ← ask (.nameReservation record.label) with
      | some (.record (some held)) =>
        if held.matrixUserId = agentUserId ∧ held.ownerId = ownerId then
          match ← ask (.releaseName record.joinId record.label) with
          | some (.applied _ _) | some (.conflict _) => return .found record revision
          | _ => return .unavailable
        else return .found record revision
      | some (.record none) | some .absent => return .found record revision
      | some .unavailable | none => return .unavailable
    else return .found record revision
  | _, _ => return .found record revision

/-- `read` of the join store, with the attempts left. -/
def readJoin (joinId : Text) : Nat → JoinProgram JoinRead
  | 0 => return .unavailable
  | attempts + 1 => do
    match ← safeRead joinId with
    | .absent => return .absent
    | .unavailable => return .unavailable
    | .record revision stored =>
      match decodeJoinRecord deps stored with
      | none => return .unavailable
      | some record =>
        if record.joinId ≠ joinId then return .unavailable
        if record.state = .pending ∧ record.agentUserId.isSome then
          let now ← clock
          if effectiveState record now = .expired then
            -- The pending state is left by compare-and-set before anything is cleaned up.
            match ← replace joinId (some revision) { record with state := .expired } .expire with
            | .conflict => readJoin joinId attempts
            | .applied revision => releaseReservation { record with state := .expired } revision
            | _ => return .unavailable
          else releaseReservation record revision
        else releaseReservation record revision

/-- `joins.read`. -/
def joinsRead (joinId : Text) : JoinProgram JoinRead := readJoin deps joinId 3

end Khala.AgentJoin
