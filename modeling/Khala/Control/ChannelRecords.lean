import Khala.Js.Map
import Khala.Js.Text
import Khala.Concurrent.Triples

/-! The records of a channel's removals, invitations and personal links, and the store that keeps
them. -/

namespace Khala.Channels

open Js Concurrent

/-- `Number.isSafeInteger` of a natural number. -/
def isSafeInteger (value : Nat) : Bool := value ≤ 9007199254740991

/-- An owner identifier, `own_<token>`; no object inherits a member of such a name. -/
structure OwnerId where
  token : Text
deriving DecidableEq

/-- A room identifier, which is never empty. -/
structure RoomId where
  text : Text
  nonempty : text ≠ []
deriving DecidableEq

/-! ## Removals -/

/-- The removal of one human, with the agents that go with them. -/
structure OwnerRemoval where
  generation : Nat
  agents : List Text
  label : Text
  complete : Bool
deriving DecidableEq

/-- `channel.removals.v1.<room>`. -/
structure RoomRemovals where
  v : Nat
  creatorOwnerId : OwnerId
  generation : Nat
  owners : Map OwnerId OwnerRemoval
deriving DecidableEq

/-! ## Invitations -/

/-- What a share asks for; none for the default. -/
inductive AdmissionPolicy
  | link (full : Bool)
  | namedEmail (email : Text)

inductive StoredAdmissionPolicy
  | link (full : Bool)
  | namedEmail (emailDigest : Text)
deriving DecidableEq

inductive InviteStatus
  | active
  | revoked
deriving DecidableEq

/-- A stored invite; the time it expires stands for its text. -/
structure InviteRecord where
  roomId : RoomId
  creatorOwnerId : OwnerId
  /-- The digest stands for the secret reference. -/
  inviteRefDigest : Text
  /-- The generation of removals at which the invite was made. -/
  removalGeneration : Option Nat
  policy : StoredAdmissionPolicy
  status : InviteStatus
  expiresAt : Option Int
  /-- Which operation was the last to authorize it. -/
  lastAuthorizedOperationDigest : Option Text
deriving DecidableEq

/-- A principal that has signed in. -/
structure AuthPrincipal where
  ownerId : OwnerId
  verifiedEmail : Text

inductive AdmissionRejection
  | authRequired
  | forbidden
  | identityMismatch
  | operationMismatch
  | revoked
  | expired
deriving DecidableEq

structure ShareGrant where
  inviteRef : Text
  shareUrl : Text
  expiresAt : Option Int
deriving DecidableEq

/-! ## The store -/

inductive ChannelKey
  | removals (roomId : RoomId)
  | agentRemoved (roomId : RoomId) (userId : Text)
  | invite (inviteRef : Text)
  | pointer (ownerId : OwnerId) (roomId : RoomId)
deriving DecidableEq

/-- A stored value, or one that no reader makes sense of. -/
inductive ChannelData
  | removals (value : RoomRemovals)
  | agentRemoved (removed : Bool)
  | invite (value : InviteRecord)
  | pointer (generation : Nat)
  | other
deriving DecidableEq

/-- The identity of a write; where the source has a random identifier, the number drawn for it. -/
inductive ChannelOperation
  | remove (random : Nat)
  | complete (random : Nat)
  | agentRemoved (random : Nat)
  | share (operationId : Text)
  | revoke (operationId : Text)
  | pointer (ownerId : OwnerId) (roomId : RoomId) (generation : Nat)
deriving DecidableEq

def ChannelOperation.random : ChannelOperation → Option Nat
  | .remove random => some random
  | .complete random => some random
  | .agentRemoved random => some random
  | _ => none

/-- The operation whose outcome a caller does not know: its own, or the one that the store names. -/
inductive UnknownOperation
  | request (operationId : Text)
  | store (operation : ChannelOperation)

/-- How an operation ends; an exception that nobody catches is one of the ends. -/
inductive OperationResult (α : Type)
  | ok (value : α)
  | rejected (code : AdmissionRejection)
  | unavailable
  | outcomeUnknown (operationId : UnknownOperation)
  | threw

/-- What the removals of a room mean for an invite. -/
inductive RemovalState
  | allowed
  | revoked
  | unavailable
deriving DecidableEq

inductive EligibleInvite
  | eligible (invite : InviteRecord) (revision : Nat)
  | failure (result : Option AdmissionRejection)

/-! ## Calls -/

inductive ChannelCall
  /-- An owner and the agents are removed from the room. -/
  | recordRemoval (roomId : RoomId) (creatorOwnerId ownerId : OwnerId) (agents : List Text)
    (label : Text)
  /-- The removal is done with. -/
  | completeRemoval (roomId : RoomId) (ownerId : OwnerId) (generation : Nat)
  /-- Whether an invite still lets an owner in. -/
  | inviteRemovalState (invite : InviteRecord) (ownerId : Option OwnerId)
  /-- An agent is marked as removed, or no more. -/
  | setAgentRemoved (roomId : RoomId) (userId : Text) (removed : Bool)
  /-- Whether an invite lets this principal in. -/
  | readEligibleInvite (inviteRef : Text) (principal : AuthPrincipal)
  /-- By the human who has signed in. -/
  | shareInvite (ownerId : OwnerId) (operationId : Text) (roomId : RoomId)
    (policy : Option AdmissionPolicy)
  /-- The one link of an owner for a room. -/
  | personalLink (ownerId : OwnerId) (roomId : RoomId)
  | revokeInvite (ownerId : OwnerId) (operationId inviteRef : Text)

abbrev ChannelCall.Reply : ChannelCall → Type
  | recordRemoval .. => Option RoomRemovals
  | completeRemoval .. => Bool
  | inviteRemovalState .. => RemovalState
  | setAgentRemoved .. => Bool
  | readEligibleInvite .. => EligibleInvite
  | shareInvite .. => OperationResult ShareGrant
  | personalLink .. => OperationResult ShareGrant
  | revokeInvite .. => OperationResult Unit

abbrev channelCalls : Interface := ⟨ChannelCall, ChannelCall.Reply⟩

/-- Whether somebody is signed in. -/
inductive Identity
  | signedIn
  | signedOut
  | unavailable

inductive Authority
  | allowed
  | forbidden
  | unavailable

/-- What is asked of the rest of the service: who is signed in, and whether they may share. -/
inductive ChannelQuestion
  | currentPrincipal (ownerId : OwnerId)
  | canShare (ownerId : OwnerId) (roomId : RoomId)

abbrev ChannelQuestion.Reply : ChannelQuestion → Type
  | currentPrincipal _ => Identity
  | canShare .. => Authority

abbrev channelSetting : Setting where
  Key := ChannelKey
  Data := ChannelData
  Operation := ChannelOperation
  keyEq := inferInstance
  dataEq := inferInstance
  operationEq := inferInstance
  -- Records of channels do not expire in the store.
  live := fun _ _ => true
  nonce := ChannelOperation.random
  Calls := channelCalls
  Questions := ⟨ChannelQuestion, ChannelQuestion.Reply⟩
  Outside := Unit
  answer := fun _ _ outside => some outside
  -- Nothing but the store takes part.
  Event := Empty
  happen := fun _ outside => some outside

abbrev ChannelProgram := StoreProgram channelSetting

abbrev ChannelStore := Shared channelSetting

end Khala.Channels
