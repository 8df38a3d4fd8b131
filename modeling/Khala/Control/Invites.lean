import Khala.Control.Removals

/-! Sharing a room by an invite, the personal link of a human, revoking an invite, and reading one
that still admits. -/

namespace Khala.Channels

open Js Concurrent

/-- The functions without effects that sharing uses: keyed digests, none of which is empty, the
normal form of an address, and the URL of an invite; and how long an invite lasts. -/
structure AdmissionRuntime where
  token : Text → Text
  inviteRefDigest : Text → Text
  inviteRefDigest_ne : ∀ inviteRef, inviteRefDigest inviteRef ≠ []
  personal : OwnerId → RoomId → Nat → Text
  /-- Makes an email address comparable, or refuses it. -/
  emailDigest : Text → Text
  emailDigest_ne : ∀ email, emailDigest email ≠ []
  normalizeEmail : Text → Option Text
  toLowerCase : Text → Text
  shareUrl : Text → Text
  inviteLifetimeMs : Option Nat

variable (runtime : AdmissionRuntime)

/-! ## Records -/

def storePolicy : Option AdmissionPolicy → Option StoredAdmissionPolicy
  | none => some (.link false)
  | some (.link full) => some (.link full)
  | some (.namedEmail email) => (runtime.normalizeEmail email).map fun email =>
    .namedEmail (runtime.emailDigest email)

def policyAllows (principal : AuthPrincipal) : StoredAdmissionPolicy → Bool
  | .link _ => true
  | .namedEmail emailDigest =>
    emailDigest = runtime.emailDigest (runtime.toLowerCase principal.verifiedEmail)

def readStoredPolicy : StoredAdmissionPolicy → Bool
  | .link _ => true
  | .namedEmail emailDigest => emailDigest ≠ []

/-- An invite as it is read: a generation that is not a safe integer is left out. -/
def readInviteRecord : ChannelData → Option InviteRecord
  | .invite record =>
    if record.inviteRefDigest ≠ [] ∧ record.lastAuthorizedOperationDigest ≠ some []
        ∧ readStoredPolicy record.policy = true then
      some { record with removalGeneration := record.removalGeneration.filter isSafeInteger }
    else none
  | _ => none

def sameShare (invite : InviteRecord) (creatorOwnerId : OwnerId) (roomId : RoomId)
    (policy : StoredAdmissionPolicy) (inviteRef : Text) : Bool :=
  invite.creatorOwnerId = creatorOwnerId ∧ invite.roomId = roomId
    ∧ invite.inviteRefDigest = runtime.inviteRefDigest inviteRef
    ∧ invite.policy = policy

def grant (inviteRef : Text) (expiresAt : Option Int) : ShareGrant :=
  ⟨inviteRef, runtime.shareUrl inviteRef, expiresAt⟩

/-- The milliseconds that `new Date(ms).toISOString()` has a text for. -/
def isoTime (ms : Int) : Option Int :=
  if -8640000000000000 ≤ ms ∧ ms ≤ 8640000000000000 then some ms else none

/-- `readPointer`. -/
def readPointer : ChannelData → Option Nat
  | .pointer generation => if isSafeInteger generation then some generation else none
  | _ => none

/-! ## Effects -/

def writeAndResolve (key : ChannelKey) (expected : Option Nat) (operation : ChannelOperation)
    (next : ChannelData) :
    ChannelProgram (WriteReply ChannelData) := do
  match ← StoreProgram.compareAndSet (T := channelSetting) key expected operation next with
  | .outcomeUnknown =>
    match ← StoreProgram.resolve (T := channelSetting) key operation with
    | .applied revision data => return .applied revision data
    | .notApplied => StoreProgram.compareAndSet (T := channelSetting) key expected operation next
    -- A failed read-back does not make the write definitely absent.
    | _ => return .outcomeUnknown
  | reply => return reply

/-- `expiresAt !== null && clock() >= Date.parse(expiresAt)`. -/
def hasExpired : Option Int → ChannelProgram Bool
  | none => return false
  | some expiresAt => do
    let now ← StoreProgram.clock
    return decide (expiresAt ≤ now)

/-- When an invite made now expires; nothing when that is no date. -/
def expiry : ChannelProgram (Option (Option Int)) :=
  match runtime.inviteLifetimeMs with
  | none => return some none
  | some lifetime => do
    let now ← StoreProgram.clock
    return (isoTime (now + lifetime)).map some

/-! ## Sharing -/

/-- The end of a share that finds no invite. -/
def storeInvite (ownerId : OwnerId) (operationId : Text) (roomId : RoomId)
    (policy : StoredAdmissionPolicy) (value : InviteRecord) :
    ChannelProgram (OperationResult ShareGrant) :=
  do
  let inviteRef := runtime.token operationId
  match ← writeAndResolve (.invite inviteRef) none (.share operationId) (.invite value) with
  -- The invite is there already: only the same share may have it.
  | .conflict (some (_, current)) =>
    match readInviteRecord current with
    | some invite =>
      if sameShare runtime invite ownerId roomId policy inviteRef
        then return .ok (grant runtime inviteRef invite.expiresAt)
      else return .rejected .operationMismatch
    | none => return .rejected .operationMismatch
  | .operationMismatch => return .rejected .operationMismatch
  | .conflict none => return .rejected .operationMismatch
  | .unavailable => return .unavailable
  | .outcomeUnknown => return .outcomeUnknown (.request operationId)
  | .applied _ (.invite stored) =>
    if sameShare runtime stored ownerId roomId policy inviteRef
      then return .ok (grant runtime inviteRef value.expiresAt)
    else return .rejected .operationMismatch
  | .applied _ _ => return .rejected .operationMismatch

/-- A share that finds no invite. -/
def shareNew (ownerId : OwnerId) (operationId : Text) (roomId : RoomId)
    (policy : StoredAdmissionPolicy) :
    ChannelProgram (OperationResult ShareGrant) := do
  match ← readRoomRemovals roomId with
  | none => return .unavailable
  | some removals =>
    if (removals.bind fun removals => removals.owners.get ownerId).any fun removal =>
      !removal.complete then
      return .rejected .forbidden
    else
      match ← expiry runtime with
      | none => return .threw
      | some expiresAt =>
        -- The invite is made at the generation of removals that the room has now.
        storeInvite runtime ownerId operationId roomId policy
          { roomId := roomId
            creatorOwnerId := ownerId
            inviteRefDigest := runtime.inviteRefDigest (runtime.token operationId)
            removalGeneration := some ((removals.map (·.generation)).getD 0)
            policy := policy
            status := .active
            expiresAt := expiresAt
            lastAuthorizedOperationDigest := none }

/-- A share by a human who may. -/
def shareAllowed (ownerId : OwnerId) (operationId : Text) (roomId : RoomId)
    (policy : StoredAdmissionPolicy) :
    ChannelProgram (OperationResult ShareGrant) := do
  let inviteRef := runtime.token operationId
  match ← StoreProgram.read (T := channelSetting) (.invite inviteRef) with
  | .unavailable => return .unavailable
  | .absent => shareNew runtime ownerId operationId roomId policy
  -- An earlier try has made the invite.
  | .record _ existing =>
    match readInviteRecord existing with
    | none => return .unavailable
    | some invite =>
      if sameShare runtime invite ownerId roomId policy inviteRef
        then return .ok (grant runtime inviteRef invite.expiresAt)
      else return .rejected .operationMismatch

def shareInvite (ownerId : OwnerId) (operationId : Text) (roomId : RoomId)
    (policy : Option AdmissionPolicy) :
    ChannelProgram (OperationResult ShareGrant) := do
  match ← StoreProgram.ask (T := channelSetting) (.currentPrincipal ownerId) with
  | .signedOut => return .rejected .authRequired
  | .unavailable => return .unavailable
  | .signedIn =>
    match storePolicy runtime policy with
    | none => return .rejected .forbidden
    | some policy =>
      match ← StoreProgram.ask (T := channelSetting) (.canShare ownerId roomId) with
      | .forbidden => return .rejected .forbidden
      | .unavailable => return .unavailable
      | .allowed => shareAllowed runtime ownerId operationId roomId policy

/-! ## The personal link -/

/-- Whether an invite is older than what the caller knows of removals, revoked or expired. -/
def isStale (roomGeneration : Nat) (invite : InviteRecord) : ChannelProgram Bool :=
  if invite.removalGeneration.getD 0 < roomGeneration ∨ invite.status = .revoked then return true
  else hasExpired invite.expiresAt

/-- Writes the pointer over what was read, and goes on unless that fails. -/
def movePointer (retry : ChannelProgram (OperationResult ShareGrant)) (ownerId : OwnerId)
    (roomId : RoomId) (expected : Option Nat) (generation : Nat) :
    ChannelProgram (OperationResult ShareGrant) :=
  do
  match ← writeAndResolve (.pointer ownerId roomId) expected (.pointer ownerId roomId generation)
    (.pointer generation) with
  | .unavailable => return .unavailable
  | .outcomeUnknown => return .outcomeUnknown (.store (.pointer ownerId roomId generation))
  | .operationMismatch => return .rejected .operationMismatch
  | _ => retry

/-- Shares the invite that the pointer names, and looks at it once more. -/
def sharePersonal (retry : ChannelProgram (OperationResult ShareGrant)) (ownerId : OwnerId)
    (roomId : RoomId) (roomGeneration generation : Nat) :
    ChannelProgram (OperationResult ShareGrant) :=
  do
  match ← shareInvite runtime ownerId (runtime.personal ownerId roomId generation) roomId none with
  | .ok shared =>
    match ← StoreProgram.read (T := channelSetting) (.invite shared.inviteRef) with
    | .record _ current =>
      -- The invite is read once more, as it may have become stale meanwhile.
      match readInviteRecord current with
      | none => return .unavailable
      | some invite =>
        if invite.creatorOwnerId ≠ ownerId ∨ invite.roomId ≠ roomId then return .unavailable
        else if ← isStale roomGeneration invite then retry else return .ok shared
    | _ => return .unavailable
  | failed => return failed

/-- What an attempt does with the pointer it has read. -/
def followPointer (retry : ChannelProgram (OperationResult ShareGrant)) (ownerId : OwnerId)
    (roomId : RoomId) (roomGeneration revision generation : Nat) :
    ChannelProgram (OperationResult ShareGrant) :=
  do
  let inviteRef := runtime.token (runtime.personal ownerId roomId generation)
  match ← StoreProgram.read (T := channelSetting) (.invite inviteRef) with
  | .unavailable => return .unavailable
  -- The pointer was written, its invite was not.
  | .absent => sharePersonal runtime retry ownerId roomId roomGeneration generation
  | .record _ existing =>
    match readInviteRecord existing with
    | none => return .unavailable
    | some invite =>
      if invite.creatorOwnerId ≠ ownerId ∨ invite.roomId ≠ roomId
          ∨ invite.inviteRefDigest ≠ runtime.inviteRefDigest inviteRef then return .unavailable
      -- The pointer moves on when a removal has made its invite stale.
      else if ← isStale roomGeneration invite then
        if isSafeInteger (generation + 1) then movePointer retry ownerId roomId (some revision) (generation + 1)
        else return .unavailable
      else sharePersonal runtime retry ownerId roomId roomGeneration generation

/-- The attempts of `personalLink`. -/
def personalAttempt (ownerId : OwnerId) (roomId : RoomId) (roomGeneration : Nat) :
    Nat → ChannelProgram (OperationResult ShareGrant)
  | 0 => return .unavailable
  | attempts + 1 => do
    let retry := personalAttempt ownerId roomId roomGeneration attempts
    match ← StoreProgram.read (T := channelSetting) (.pointer ownerId roomId) with
    | .unavailable => return .unavailable
    -- The first link of this owner for the room.
    | .absent => movePointer retry ownerId roomId none 0
    | .record revision value =>
      match readPointer value with
      | none => return .unavailable
      | some generation =>
        followPointer runtime retry ownerId roomId roomGeneration revision generation

def personalLink (ownerId : OwnerId) (roomId : RoomId) :
    ChannelProgram (OperationResult ShareGrant) :=
  do
  match ← StoreProgram.ask (T := channelSetting) (.currentPrincipal ownerId) with
  | .signedOut => return .rejected .authRequired
  | .unavailable => return .unavailable
  | .signedIn =>
    match ← readRoomRemovals roomId with
    | none => return .unavailable
    | some removals =>
      personalAttempt runtime ownerId roomId ((removals.map (·.generation)).getD 0) 8

/-! ## Revoking and reading -/

/-- `revokeInvite`, with the attempts left. -/
def revokeAttempt (ownerId : OwnerId) (operationId inviteRef : Text) :
    Nat → ChannelProgram (OperationResult Unit)
  | 0 => return .unavailable
  | attempts + 1 => do
    match ← StoreProgram.read (T := channelSetting) (.invite inviteRef) with
    | .unavailable => return .unavailable
    | .absent => return .rejected .revoked
    | .record revision value =>
      match readInviteRecord value with
      | none => return .unavailable
      | some invite =>
        if invite.inviteRefDigest ≠ runtime.inviteRefDigest inviteRef then return .unavailable
        else if invite.creatorOwnerId ≠ ownerId then return .rejected .forbidden
        else if ← hasExpired invite.expiresAt then return .rejected .expired
        -- An invite that is revoked stays so.
        else if invite.status = .revoked then return .ok ()
        else
          match ← writeAndResolve (.invite inviteRef) (some revision) (.revoke operationId)
            (.invite { invite with status := .revoked, lastAuthorizedOperationDigest := none }) with
          | .applied _ _ => return .ok ()
          | .operationMismatch => return .rejected .operationMismatch
          | .unavailable => return .unavailable
          | .outcomeUnknown => return .outcomeUnknown (.request operationId)
          -- Somebody else has written the invite: it is read again.
          | .conflict _ => revokeAttempt ownerId operationId inviteRef attempts

def revokeInvite (ownerId : OwnerId) (operationId inviteRef : Text) :
    ChannelProgram (OperationResult Unit) :=
  do
  match ← StoreProgram.ask (T := channelSetting) (.currentPrincipal ownerId) with
  | .signedOut => return .rejected .authRequired
  | .unavailable => return .unavailable
  | .signedIn => revokeAttempt runtime ownerId operationId inviteRef 3

/-- The rest of `readEligibleInvite`, once the removals allow the invite. -/
def eligible (principal : AuthPrincipal) (invite : InviteRecord) (revision : Nat) :
    EligibleInvite :=
  if invite.status = .revoked then .failure (some .revoked)
  else if policyAllows runtime principal invite.policy = false
    then .failure (some .identityMismatch)
  else .eligible invite revision

/-- A failure without a rejection is one that may be tried again. -/
def readEligibleInvite (inviteRef : Text) (principal : AuthPrincipal) :
    ChannelProgram EligibleInvite :=
  do
  match ← StoreProgram.read (T := channelSetting) (.invite inviteRef) with
  | .unavailable => return .failure none
  | .absent => return .failure (some .revoked)
  | .record revision value =>
    match readInviteRecord value with
    | none => return .failure none
    | some invite =>
      if invite.inviteRefDigest ≠ runtime.inviteRefDigest inviteRef then return .failure none
      else if ← hasExpired invite.expiresAt then return .failure (some .expired)
      else
        -- A removal after the invite was made may have ended it.
        match ← inviteRemovalState invite (some principal.ownerId) with
        | .unavailable => return .failure none
        | .revoked => return .failure (some .revoked)
        | .allowed => return eligible runtime principal invite revision

/-! ## The service -/

def ChannelCall.body : (call : ChannelCall) → ChannelProgram call.Reply
  | .recordRemoval roomId creatorOwnerId ownerId agents label =>
    Channels.recordRemoval roomId creatorOwnerId ownerId agents label 5
  | .completeRemoval roomId ownerId generation =>
    Channels.completeRemoval roomId ownerId generation 5
  | .inviteRemovalState invite ownerId => Channels.inviteRemovalState invite ownerId
  | .setAgentRemoved roomId userId removed => Channels.setAgentRemoved roomId userId removed 5
  | .readEligibleInvite inviteRef principal =>
    Channels.readEligibleInvite runtime inviteRef principal
  | .shareInvite ownerId operationId roomId policy =>
    Channels.shareInvite runtime ownerId operationId roomId policy
  | .personalLink ownerId roomId => Channels.personalLink runtime ownerId roomId
  | .revokeInvite ownerId operationId inviteRef =>
    Channels.revokeInvite runtime ownerId operationId inviteRef

abbrev channelService : Service := channelSetting.service (ChannelCall.body runtime)

end Khala.Channels
