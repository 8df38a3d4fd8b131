import Khala.Control.JoinStore

/-! What an agent's requests and a human's requests do to a join, up to the credentials and the
owner. -/

namespace Khala.AgentJoin

open Js Concurrent

variable (deps : JoinDeps)

/-! ## Responses -/

inductive Access
  | join
  | auto
deriving DecidableEq

structure AgentJoinView where
  joinId : Text
  label : Text
  harness : Text
  channelName : Text
  roomId : Text
  state : JoinState
  agentUserId : Option Text
  access : Option Access
deriving DecidableEq

inductive JoinResponse
  | error (status : Nat) (code : Text)
  | view (view : AgentJoinView)
  | polled (state : JoinState)
  /-- `{ state: 'confirmed', credentials }`. -/
  | credentials (credentials : AgentCredentials)
  | empty
deriving DecidableEq

/-- What a handler answers when it cannot finish, also when something throws. -/
def unavailable : JoinResponse := .error 503 (lit "unavailable")

def viewOf (record : JoinRecord) : JoinProgram AgentJoinView := do
  let now ← clock
  return ⟨record.joinId, record.label, record.harness, record.channelName, record.roomId,
    effectiveState record now, record.agentUserId, none⟩

/-! ## The agent's requests -/

/-- The parameters of a request and the bearer token of its authorization. -/
structure AgentRequest where
  params : List (Text × Text)
  bearer : Option Text

def authenticate (request : AgentRequest) : JoinProgram (Option (JoinRecord × Nat)) := do
  match request.params, request.bearer with
  | [(name, joinId)], some bearer =>
    if name ≠ lit "joinId" ∨ isJoinId joinId = false then return none
    match ← joinsRead deps joinId with
    | .found record revision =>
      if deps.hashPollSecret bearer = record.pollSecretHash then return some (record, revision)
        else return none
    | _ => return none
  | _, _ => return none

def poll (request : AgentRequest) : JoinProgram JoinResponse := do
  match ← authenticate deps request with
  | none => return .error 404 (lit "not_found")
  | some (record, revision) =>
    let now ← clock
    let state := effectiveState record now
    if state ≠ .confirmed then return .polled (if state = .ready then .claimed else state)
    match deps.openCredentials record.joinId (record.sealedCredentials.getD []) with
    | none => return unavailable
    | some credentials =>
      let next := { record with state := .claimed, sealedCredentials := none }
      match ← replace record.joinId (some revision) next .claim with
      | .applied _ => return .credentials credentials
      | .conflict =>
        match ← joinsRead deps record.joinId with
        | .found latest _ =>
          if latest.state = .claimed ∨ latest.state = .ready then return .polled .claimed
            else return unavailable
        | _ => return unavailable
      | _ => return unavailable

def ready (request : AgentRequest) : JoinProgram JoinResponse := do
  match ← authenticate deps request with
  | none => return .error 404 (lit "not_found")
  | some (record, revision) =>
    let now ← clock
    let state := effectiveState record now
    if state = .ready then return .empty
    if state ≠ .claimed then return .error 409 (lit "not_confirmed")
    match record.ownerId, record.agentUserId with
    | some ownerId, some agentUserId =>
      -- A failed invite leaves the join claimed.
      match ← ask (.inviteAgent ownerId record.roomId agentUserId) with
      | some true =>
        match ← replace record.joinId (some revision) { record with state := .ready } .ready with
        | .applied _ => return .empty
        | .conflict =>
          match ← joinsRead deps record.joinId with
          | .found latest _ => if latest.state = .ready then return .empty else return unavailable
          | _ => return unavailable
        | _ => return unavailable
      | _ => return unavailable
    | _, _ => return unavailable

/-! ## Confirmation -/

structure Principal where
  ownerId : Text
  verifiedEmail : Text

/-- What keeps a principal out of the room of a join. -/
def membership (principal : Principal) (record : JoinRecord) : JoinProgram (Option JoinResponse) :=
  do
  match ← ask (.inspectMembership principal.ownerId record.roomId) with
  | some .joined => return none
  | some .absent => return some (.error 403 (lit "not_member"))
  | some .unavailable | none => return some unavailable

/-- Whether the approval that a confirmation rests on, if any, is still in force. -/
def approvalHolds (identityId : Text) (principal : Principal) : Option Text → JoinProgram Bool
  | none => return true
  | some _ => do
    match ← ask (.rejoinApproval identityId) with
    | some (.record (some approval)) =>
      return !approval.revoked && approval.ownerId == principal.ownerId
    | _ => return false

/-- The write that confirms, and what is answered after it. -/
def confirmStaged (joinId : Text) (principal : Principal) (approvedUsername : Option Text)
    (username identityId userId : Text) (issuedGeneration : Nat) (credentials : AgentCredentials)
    (name : Text) (record : JoinRecord) (revision : Nat) : JoinProgram JoinResponse := do
  -- The record may have run out while the agent was made.
  let now ← clock
  if effectiveState record now = .expired then
    let _ ← joinsRead deps joinId
    return .view (← viewOf record)
  let granted ← approvalHolds identityId principal approvedUsername
  if granted = false then return unavailable
  -- The credentials are stored only under a key.
  let some sealedCredentials ← ask (.sealCredentials joinId credentials) | return unavailable
  let rejoinApproval :=
    if (rejoinIdentity deps record).isSome then some ⟨username, issuedGeneration⟩
    else record.rejoinApproval
  let next := { record with
    rejoinApproval := rejoinApproval, label := name, ownerId := some principal.ownerId,
    state := .confirmed,
    agentUserId := some credentials.userId, sealedCredentials := some sealedCredentials }
  match ← replace joinId (some revision) next .confirm with
  -- The index and the approval come after the record, so a failure leaves the agent confirmed.
  | .applied _ =>
    let some _ ← ask (.indexOwnerAgent principal.ownerId userId) | return unavailable
    let some true ← ask (.rememberApproval next username issuedGeneration approvedUsername.isSome)
      | return unavailable
    return .view (← viewOf next)
  -- Somebody else has written the record: the same owner may have confirmed it.
  | .conflict =>
    match ← joinsRead deps joinId with
    | .found latest _ =>
      if latest.ownerId = some principal.ownerId
          ∧ (latest.state = .confirmed ∨ latest.state = .claimed ∨ latest.state = .ready) then
        let some _ ← ask (.indexOwnerAgent principal.ownerId userId) | return unavailable
        return .view (← viewOf latest)
      else return unavailable
    | _ => return unavailable
  | _ => return unavailable

/-- Stores the name and the agent's user first, so that a failed confirmation stays an expirable
join. -/
def stage (joinId : Text) (principal : Principal) (approvedUsername : Option Text)
    (username identityId userId : Text) (issuedGeneration : Nat) (credentials : AgentCredentials)
    (rejoin : Bool) (name : Text) (record : JoinRecord) (revision : Nat) :
    JoinProgram JoinResponse :=
  do
  let now ← clock
  if effectiveState record now = .expired then return .view (← viewOf record)
  let staged :=
    { record with rejoin := rejoin || record.rejoin, label := name, agentUserId := some userId }
  let confirmed :=
    confirmStaged deps joinId principal approvedUsername username identityId userId issuedGeneration
    credentials name staged
  -- The name is written before the confirmation, each as a write of its own.
  match ← replace joinId (some revision) staged .name with
  | .applied revision => confirmed revision
  -- Somebody else has written the record, which is read and judged once more.
  | .conflict =>
    match ← joinsRead deps joinId with
    | .found latest latestRevision =>
      if latest.ownerId ≠ some principal.ownerId then return unavailable
      if latest.state = .confirmed ∨ latest.state = .claimed ∨ latest.state = .ready then
        return .view (← viewOf latest)
      if latest.state ≠ .pending then return .view (← viewOf latest)
      let now ← clock
      if effectiveState latest now = .expired then return .view (← viewOf latest)
      -- The name is there already, so the confirmation may go on.
      if latest.agentUserId = some userId ∧ latest.label = name then confirmed latestRevision
      else
        match ← replace joinId (some latestRevision) staged .name with
        | .applied revision => confirmed revision
        | _ => return unavailable
    | _ => return unavailable
  | _ => return unavailable

/-- Whether the owner may have been removed from the room since the given generation. -/
def removedSince (after : Option (Option RoomRemovals)) (ownerId : Text) (issuedGeneration : Nat) :
    Bool :=
  after.all fun removal =>
    issuedGeneration
      < ((removal.bind fun removal => removal.owners ownerId).map (·.generation)).getD 0

/-- Provisions the agent of a join that the principal holds, under the given name. -/
def provisionNamed (joinId : Text) (principal : Principal) (approvedUsername : Option Text)
    (username identityId userId : Text) (previous : Option AgentOwnerRecord) (name : Text)
    (record : JoinRecord) (revision : Nat) : JoinProgram JoinResponse := do
  let some (some removal) ← ask (.readRoomRemovals record.roomId) | return unavailable
  if ((removal.bind fun removal => removal.owners principal.ownerId).any fun own =>
    !own.complete) then
    return unavailable
  -- The agent is made at the generation of removals that is read here.
  let issuedGeneration := (removal.map (·.generation)).getD 0
  let some true ← ask
    (.rememberRoomAgent record.roomId principal.ownerId userId) | return unavailable
  let some (some credentials) ← ask
      (.provision joinId (record.sessionId.map fun _ =>
        identityId) principal.ownerId name record.roomId)
    | return unavailable
  if credentials.userId ≠ userId then return unavailable
  let some true ← ask (.rememberAgentSession credentials issuedGeneration) | return unavailable
  -- The removals are read again, as one may have come while the agent was made.
  let some after ← ask (.readRoomRemovals record.roomId) | return unavailable
  let deniedAfter ← membership principal record
  if removedSince after principal.ownerId issuedGeneration || deniedAfter.isSome then
    let some true ← ask (.revokeAgentSession credentials.userId record.roomId) | return unavailable
    return deniedAfter.getD (.error 403 (lit "not_member"))
  let createdAt ← (previous.map fun previous => pure previous.createdAt).getD clock
  -- The owner of the agent is written once.
  match ← ask (.writeAgentOwner ⟨credentials.userId, principal.ownerId, username, record.harness,
    name, createdAt⟩) with
  | some (.applied _ _) =>
    stage deps joinId principal approvedUsername username identityId userId
      issuedGeneration credentials
      previous.isSome name record revision
  -- The agent has an owner: only the same one with the same label may go on.
  | some (.conflict (some (_, held))) =>
    if held.ownerId = principal.ownerId ∧ held.label = name then
      stage deps joinId principal approvedUsername username identityId userId
        issuedGeneration credentials
        previous.isSome name record revision
    else return unavailable
  | _ => return unavailable

/-- What follows once the principal owns the join. -/
def provisionOwned (joinId : Text) (principal : Principal) (approvedUsername : Option Text)
    (record : JoinRecord) (revision : Nat) : JoinProgram JoinResponse := do
  let some (some username) ← ask
    (.usernameOf principal.ownerId principal.verifiedEmail approvedUsername)
    | return unavailable
  if username = [] then return unavailable
  let identityId := (rejoinIdentity deps record).getD joinId
  let userId := deps.agentUserId identityId principal.ownerId
  -- Only a human's confirmation takes back an agent that someone removed.
  let restored ← (approvedUsername.map fun _ =>
    pure (some true)).getD (ask (.setAgentRemoved record.roomId userId false))
  if restored ≠ some true then return unavailable
  let named := fun previous name =>
    provisionNamed deps joinId principal approvedUsername username identityId userId previous name
      record revision
  match ← ask (.agentOwner userId) with
  | some (.record (some previous)) =>
    if previous.ownerId ≠ principal.ownerId ∨ previous.harness ≠ record.harness
      then return unavailable
    named (some previous) previous.label
  | some .absent =>
    if record.agentUserId = some userId then named none record.label
    else
      let some (some names) ← ask
        (.roomMemberNames principal.ownerId record.roomId) | return unavailable
      named none (deps.freeAgentName username record.harness names record.label)
  | _ => return unavailable

/-- `confirm`, with the attempts left. -/
def confirmJoin (joinId : Text) (principal : Principal) (approvedUsername : Option Text) :
    Nat → JoinProgram JoinResponse
  | 0 => return unavailable
  | attempts + 1 => do
    match ← joinsRead deps joinId with
    | .absent => return .error 404 (lit "not_found")
    | .unavailable => return unavailable
    | .found record revision =>
      match ← membership principal record with
      | some denied => return denied
      | none =>
        let now ← clock
        -- Members only: an expired view names the agent and channel.
        if effectiveState record now = .expired then return .view (← viewOf record)
        if record.ownerId.any fun ownerId => ownerId ≠ principal.ownerId then
          return .error 409 (lit "already_confirmed_by_other")
        if record.state = .confirmed ∨ record.state = .claimed ∨ record.state = .ready then
          match record.rejoinApproval with
          | none => return .view (← viewOf record)
          | some approval =>
            let some true ← ask
              (.rememberApproval record approval.ownerLabel approval.generation true)
              | return unavailable
            return .view (← viewOf record)
        else if record.ownerId.isSome then
          provisionOwned deps joinId principal approvedUsername record revision
        else
          let locked := { record with ownerId := some principal.ownerId }
          match ← replace joinId (some revision) locked .owner with
          | .conflict => confirmJoin joinId principal approvedUsername attempts
          | .applied revision =>
            provisionOwned deps joinId principal approvedUsername locked revision
          | _ => return unavailable

def confirm (joinId : Text) (principal : Principal) (approvedUsername : Option Text) :
    JoinProgram JoinResponse :=
  confirmJoin deps joinId principal approvedUsername 2

/-- The confirmation that an approval of the same session stands for, given what the approval's
record holds. -/
def autoConfirm (joinId : Text) (approval : Lookup RejoinApproval) : JoinProgram Bool := do
  let .found record _ ← joinsRead deps joinId | return false
  match rejoinIdentity deps record, approval with
  | none, _ => return true
  | some _, .absent => return true
  | some identity, .record (some grant) =>
    if grant.revoked then return true
    let some (some removals) ← ask (.readRoomRemovals record.roomId) | return false
    if ((removals.bind fun removals => removals.owners grant.ownerId).any fun removal =>
        !removal.complete || decide (grant.generation < removal.generation)) then return true
    let some (some agentGone) ← ask
      (.agentRemoved record.roomId (deps.agentUserId identity grant.ownerId))
      | return false
    if agentGone then return true
    match ← confirm deps joinId ⟨grant.ownerId, []⟩ (some grant.ownerLabel) with
    | .error 403 _ =>
      -- Losing membership never reuses the approval.
      match ← ask (.revokeApproval joinId identity) with
      | some (.applied _ _) | some (.conflict _) => return true
      | _ => return false
    | .error _ _ => return false
    | _ => return true
  | some _, _ => return false

/-! ## The human's requests -/

def inviteRefusal : InviteRefusal → JoinResponse
  | .identityMismatch => .error 403 (lit "wrong_account")
  | .expired | .revoked => .error 410 (lit "invite_unavailable")
  | .authRequired => .error 401 (lit "signed_out")
  | .forbidden => .error 403 (lit "not_member")
  | .other => unavailable

/-- Whether the invite the agent joined with also admits the human; nothing when it does. -/
def inviteAccess (principal : Principal) (record : JoinRecord) (admits : Bool) :
    JoinProgram (Option JoinResponse) :=
  do
  match record.sealedInvite.bind (deps.openInvite record.joinId) with
  | none | some [] => return some (.error 403 (lit "not_member"))
  | some inviteRef =>
    let some true ← ask (.admissionFor principal.ownerId) | return some unavailable
    match ← ask (.invite admits record.joinId principal.ownerId inviteRef) with
    | some none => return none
    | some (some refusal) => return some (inviteRefusal refusal)
    | none => return some unavailable

/-- Approve joins off: a member whose own link the agent used needs no click. -/
def autoAccess (principal : Principal) (record : JoinRecord) (joining : Bool) : JoinProgram Bool :=
  do
  if joining = true ∨ record.issuerOwnerId ≠ some principal.ownerId then return false
  match ← ask (.readApproveJoins record.roomId) with
  | some (some false) => return (← inviteAccess deps principal record false).isNone
  | _ => return false

/-- The view of a join before it is confirmed: how it would be named, and how the viewer gets to
confirm it. -/
def pendingView (principal : Principal) (record : JoinRecord) (joining : Bool)
    (view : AgentJoinView) :
    JoinProgram JoinResponse := do
  let auto ← autoAccess deps principal record joining
  let access := if joining then some Access.join else if auto then some Access.auto else none
  let some (some username) ← ask
    (.usernameOf principal.ownerId principal.verifiedEmail none) | return unavailable
  if username = [] then return unavailable
  let userId := deps.agentUserId (identityOf deps record) principal.ownerId
  -- An agent that has a label keeps it.
  match ← ask (.agentOwner userId) with
  | some (.record (some previous)) =>
    if previous.ownerId = principal.ownerId then
      return .view { view with access := access, label := previous.label }
    let some names ← ask (.roomMemberNames principal.ownerId record.roomId) | return unavailable
    return .view { view with
      access := access,
      label := deps.freeAgentName username record.harness (names.getD []) record.label }
  -- Otherwise the lowest free name is offered.
  | some _ =>
    let some names ← ask (.roomMemberNames principal.ownerId record.roomId) | return unavailable
    return .view { view with
      access := access,
      label := deps.freeAgentName username record.harness (names.getD []) record.label }
  | none => return unavailable

/-- Whether somebody who is not a member is joining through the agent's invite, and what still keeps
them out. Only this route, on a pending join, ever admits. -/
def admission (principal : Principal) (record : JoinRecord) (mutation : Bool)
    (denied : Option JoinResponse) :
    JoinProgram (Bool × Option JoinResponse) := do
  match denied with
  | some (.error 403 _) =>
    if record.state ≠ .pending then return (false, denied)
    let now ← clock
    if effectiveState record now ≠ .pending then return (false, denied)
    return (true, ← inviteAccess deps principal record mutation)
  | _ => return (false, denied)

/-- `handler(mutation)` once the human and the join's identifier are known. -/
def humanRequest (mutation : Bool) (joinId : Text) (principal : Principal) :
    JoinProgram JoinResponse :=
  do
  if isJoinId joinId = false then return .error 404 (lit "not_found")
  match ← joinsRead deps joinId with
  | .absent => return .error 404 (lit "not_found")
  | .unavailable => return unavailable
  | .found record _ =>
    -- A human who is no member may still be let in by the invite of the join.
    let denied ← membership principal record
    let (joining, denied) ← admission deps principal record mutation denied
    match mutation, joining, denied with
    | true, true, some refusal => return refusal
    | true, _, _ => confirm deps joinId principal none
    | false, _, some refusal => return refusal
    | false, _, none =>
      let view ← viewOf record
      if view.state = .pending then pendingView deps principal record joining view
      else return .view { view with access := if joining then some .join else none }

end Khala.AgentJoin
