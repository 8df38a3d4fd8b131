import Khala.Control.RemovalGenerations

/-! Sharing under one operation: when every try writes the same bytes, all of them end with the one
invite that is stored. -/

namespace Khala.Channels

open Js Concurrent

variable (runtime : AdmissionRuntime)

/-- Who shares what under an operation. -/
structure ShareUse where
  ownerId : OwnerId
  roomId : RoomId
  policy : StoredAdmissionPolicy

/-- The call shares under each operation as that operation is used. -/
def Uses (uses : Text → ShareUse) : ChannelCall → Prop
  | .shareInvite ownerId operationId roomId asked =>
    ∀ policy, storePolicy runtime asked = some policy → uses operationId = ⟨ownerId, roomId, policy⟩
  | .personalLink ownerId roomId =>
    ∀ generation, uses (runtime.personal ownerId roomId generation) = ⟨ownerId, roomId, .link false⟩
  | _ => True

/-- A new invite has the expiry and the generation with which its operation has been used before. -/
def SameBytes (store : ChannelStore) : StoreOp channelSetting → Prop
  | .compareAndSet _ _ (.share operationId) data =>
    ∀ claim ∈ store.claims, claim.operation = .share operationId → claim.data = data
  | _ => True

/-- Nothing is stored at first, and the calls share as their operations are used, with the bytes
used before. -/
def sharing (uses : Text → ShareUse) : Regime where
  first := fun _ _ => False
  seen := fun store _ op => SameBytes store op
  extra := fun _ call _ _ _ _ => Uses runtime uses call
  stable := fun _ used => used

/-- The operation stores a new invite. -/
def IsShare (operation : ChannelOperation) : Prop := ∃ operationId, operation = .share operationId

variable {runtime : AdmissionRuntime} {uses : Text → ShareUse} {store : ChannelStore}
    {operationId : Text}

/-! ## What is stored under an operation -/

/-- An invite that a share under the operation has made. -/
structure MadeBy (runtime : AdmissionRuntime) (uses : Text → ShareUse) (operationId : Text)
    (value : InviteRecord) : Prop where
  same : sameShare runtime value (uses operationId).ownerId (uses operationId).roomId
    (uses operationId).policy
    (runtime.token operationId) = true
  readable : readStoredPolicy value.policy = true
  authorized : value.lastAuthorizedOperationDigest = none

/-- A policy that is stored is read. -/
theorem readStoredPolicy_of_storePolicy {asked : Option AdmissionPolicy}
    {policy : StoredAdmissionPolicy} (stored : storePolicy runtime asked = some policy) :
    readStoredPolicy policy = true := by
  match asked with
  | none => cases stored; rfl
  | some (.link full) => cases stored; rfl
  | some (.namedEmail email) =>
    simp only [storePolicy, Option.map_eq_some_iff] at stored
    obtain ⟨address, -, rfl⟩ := stored
    simpa [readStoredPolicy] using runtime.emailDigest_ne address

/-- A new invite was made by the call that shares it. -/
theorem NewInvite.madeBy {call : ChannelCall} {ownerId : OwnerId} {roomId : RoomId}
    {policy : StoredAdmissionPolicy} {value : InviteRecord}
    (new : NewInvite runtime operationId ownerId roomId policy value)
    (shares : Shares runtime store call operationId ownerId roomId policy)
    (used : Uses runtime uses call) :
    MadeBy runtime uses operationId value := by
  have use : uses operationId = ⟨ownerId, roomId, policy⟩ ∧ readStoredPolicy policy = true := by
    rcases shares with ⟨asked, rfl, stored⟩ | ⟨rfl, rfl, generation, revision, rfl, -⟩
    · exact ⟨used policy stored, readStoredPolicy_of_storePolicy stored⟩
    · exact ⟨used generation, rfl⟩
  refine ⟨?_, new.policy ▸ use.2, new.authorized⟩
  rw [use.1]
  exact decide_eq_true ⟨new.creatorOwnerId, new.roomId, new.inviteRefDigest, new.policy⟩

/-- What a share has made is read as what it is. -/
theorem MadeBy.read {value : InviteRecord} (made : MadeBy runtime uses operationId value) :
    readInviteRecord (.invite value) = some { value with removalGeneration := value.removalGeneration.filter isSafeInteger } := by
  have same := of_decide_eq_true made.same
  have digest : value.inviteRefDigest ≠ [] := same.2.2.1 ▸ runtime.inviteRefDigest_ne _
  simp only [readInviteRecord, made.readable, made.authorized]
  exact if_pos ⟨digest, by simp, trivial⟩

/-- The claim of a share is for an invite that a share under its operation has made. -/
theorem claim_of_share (kept : Kept (channelRules runtime (sharing runtime uses)) store)
    {claim : Claim channelSetting} (member : claim ∈ store.claims)
    (own : claim.operation = .share operationId) :
    claim.key = .invite (runtime.token operationId)
      ∧ ∃ value, claim.data = .invite value ∧ MadeBy runtime uses operationId value := by
  rcases kept.ruled claim member
    with ⟨version, inside, nobody, -⟩ | ⟨write, held, ⟨tag, call, -, rule, used⟩, rfl⟩
  · -- Nothing was there at first.
    rcases kept.versions version inside with ⟨-, -, first⟩ | ⟨expected, ⟨tag, call, caller, -⟩, -⟩
    · exact first.elim
    · rw [nobody] at caller
      cases caller
  · have own : write.author.operation = .share operationId := own
    rw [own] at rule
    obtain ⟨ownerId, roomId, policy, value, shares, key, -, data, new⟩ := rule
    exact ⟨key, value, data, new.madeBy shares used⟩

/-- The claim of a pointer's move is for that move. -/
theorem claim_of_pointer (kept : Kept (channelRules runtime (sharing runtime uses)) store)
    {claim : Claim channelSetting} (member : claim ∈ store.claims) {ownerId : OwnerId}
    {roomId : RoomId} {generation : Nat}
    (own : claim.operation = .pointer ownerId roomId generation) :
    claim.key = .pointer ownerId roomId ∧ claim.data = .pointer generation := by
  rcases kept.ruled claim member
    with ⟨version, inside, nobody, -⟩ | ⟨write, held, ⟨tag, call, -, rule, -⟩, rfl⟩
  · rcases kept.versions version inside with ⟨-, -, first⟩ | ⟨expected, ⟨tag, call, caller, -⟩, -⟩
    · exact first.elim
    · rw [nobody] at caller
      cases caller
  · have own : write.author.operation = .pointer ownerId roomId generation := own
    rw [own] at rule
    exact ⟨rule.2.1, rule.2.2.1⟩

/-- What is under the reference of an operation: what a share claimed it for, at most revoked since.
-/
theorem invite_version (kept : Kept (channelRules runtime (sharing runtime uses)) store)
    (tokens : Function.Injective runtime.token) :
    ∀ version ∈ store.versions, version.key = .invite (runtime.token operationId) →
      ∃ stored claim value, version.data = .invite stored ∧ MadeBy runtime uses operationId stored
        ∧ claim ∈ store.claims ∧ claim.operation = .share operationId ∧ claim.data = .invite value
        ∧ stored.expiresAt = value.expiresAt := by
  refine kept.all (fun _ _ => rfl) _ (fun version _ _ first _ => first.elim)
    (fun version member rule key => ?_)
    fun old inside version member same rule held key => ?_
  -- The first version of an invite is the one that was shared.
  · obtain ⟨tag, call, -, rule, used⟩ := rule
    cases operation : version.author.operation with
    | share other =>
      rw [operation] at rule
      obtain ⟨ownerId, roomId, policy, value, shares, named, -, data, new⟩ := rule
      cases tokens (ChannelKey.invite.inj (named.symm.trans key))
      exact ⟨value, SharedVersion.claim version, value, data, new.madeBy shares used,
        kept.versionsClaimed version member,
        operation, data, rfl⟩
    | revoke other =>
      rw [operation] at rule
      obtain ⟨ownerId, inviteRef, revision, before, invite, -, -, expected, -⟩ := rule
      cases expected
    | remove random =>
      rw [operation] at rule
      obtain ⟨roomId, creatorOwnerId, ownerId, agents, label, previous, -, named, -⟩ := rule
      cases named.symm.trans key
    | complete random =>
      rw [operation] at rule
      obtain ⟨roomId, ownerId, record, entry, -, named, -⟩ := rule
      cases named.symm.trans key
    | agentRemoved random =>
      rw [operation] at rule
      obtain ⟨roomId, userId, removed, -, named, -⟩ := rule
      cases named.symm.trans key
    | pointer ownerId roomId generation =>
      rw [operation] at rule
      cases rule.2.1.symm.trans key
  -- A later version was written over an earlier one, which revoking alone does.
  · obtain ⟨stored, claim, value, data, made, claimed⟩ := held (same.trans key)
    obtain ⟨tag, call, -, rule, -⟩ := rule
    cases operation : version.author.operation with
    | share other =>
      rw [operation] at rule
      obtain ⟨ownerId, roomId, policy, new, -, -, expected, -⟩ := rule
      cases expected
    | revoke other =>
      -- A revoked invite differs from the one before it in what does not matter here.
      rw [operation] at rule
      obtain ⟨ownerId, inviteRef, revision, before, invite, -, -, expected, has, read, -,
        written⟩ := rule
      cases expected
      rw [has.eq inside, data] at read
      cases made.read.symm.trans read
      exact ⟨_, claim, value, written, ⟨made.same, made.readable, rfl⟩, claimed⟩
    | remove random =>
      rw [operation] at rule
      obtain ⟨roomId, creatorOwnerId, ownerId, agents, label, previous, -, named, -⟩ := rule
      cases named.symm.trans key
    | complete random =>
      rw [operation] at rule
      obtain ⟨roomId, ownerId, record, entry, -, named, -⟩ := rule
      cases named.symm.trans key
    | agentRemoved random =>
      rw [operation] at rule
      obtain ⟨roomId, userId, removed, -, named, -⟩ := rule
      cases named.symm.trans key
    | pointer ownerId roomId generation =>
      rw [operation] at rule
      cases rule.2.1.symm.trans key

/-! ## Answers -/

section

variable {tag : Nat} {call : ChannelCall} {policy : StoredAdmissionPolicy} {expiresAt : Option Int}

/-- A share with the bytes used before is never taken for another. -/
theorem not_blocked_share {value : InviteRecord} :
    ¬ Blocked (channelRules runtime (sharing runtime uses)) call
      (shareWrite runtime tag call operationId value) store := by
  rintro ⟨moment, kept, -, ⟨alike, -⟩, claim, member, -, own, differs⟩
  exact differs ⟨(claim_of_share kept member own).1, alike claim member own⟩

/-- The move of a pointer is never taken for another. -/
theorem not_blocked_pointer {ownerId : OwnerId} {roomId : RoomId} {expected : Option Nat}
    {generation : Nat} :
    ¬ Blocked (channelRules runtime (sharing runtime uses)) call (pointerWrite tag call ownerId roomId expected generation)
      store := by
  rintro ⟨moment, kept, -, -, claim, member, -, own, differs⟩
  exact differs (claim_of_pointer kept member own)

/-- No answer rests on another use of the operation. -/
theorem not_refused (kept : Kept (channelRules runtime (sharing runtime uses)) store)
    (tokens : Function.Injective runtime.token)
    (use : uses operationId = ⟨ownerId, roomId, policy⟩) :
    ¬ Refused runtime (sharing runtime uses) tag call operationId ownerId roomId policy store := by
  rintro (⟨revision, data, ⟨version, member, key, -, rfl⟩, differs⟩ | ⟨value, -, blocked⟩)
  · obtain ⟨stored, claim, value, data, made, -⟩ := invite_version kept tokens version member key
    rw [data] at differs
    have same := made.same
    rw [use] at same
    have apart := differs _ made.read
    rw [show sameShare runtime { stored with removalGeneration := stored.removalGeneration.filter isSafeInteger } ownerId roomId
      policy (runtime.token operationId) = true from same] at apart
    cases apart
  · exact not_blocked_share blocked

/-- There is an invite under the reference, and it expires then. -/
structure Expires (store : ChannelStore) (inviteRef : Text) (expiresAt : Option Int) : Prop where
  stored : ∃ version ∈ store.versions, version.key = .invite inviteRef
  same : ∀ version ∈ store.versions, version.key = .invite inviteRef →
    ∃ invite, version.data = .invite invite ∧ invite.expiresAt = expiresAt

/-- What a share is granted is what is stored. -/
theorem Granted.expires {ownerId : OwnerId} {roomId : RoomId}
    (kept : Kept (channelRules runtime (sharing runtime uses)) store)
    (tokens : Function.Injective runtime.token) (alike : Alike (T := channelSetting) IsShare store)
    (granted : Granted runtime (sharing runtime uses) tag call operationId ownerId roomId policy
      expiresAt store) :
    Expires store (runtime.token operationId) expiresAt := by
  -- Either way the operation is claimed for an invite that expires then.
  have claimed : (∃ version ∈ store.versions, version.key = .invite (runtime.token operationId))
    ∧ ∃ claim ∈ store.claims,
      claim.operation = .share operationId ∧ ∃ value, claim.data = .invite value
        ∧ value.expiresAt = expiresAt := by
    rcases granted with ⟨revision, data, invite, ⟨version, member, key, -, rfl⟩, read, -, expires⟩
      | ⟨value, stored, revision, new, ⟨version, member, key, -⟩, expires,
        ⟨held, member'⟩ | blocked⟩
    · obtain ⟨stored, claim, value, data, made, member', own, bytes, same⟩ :=
        invite_version kept tokens version member key
      rw [data] at read
      cases made.read.symm.trans read
      exact ⟨⟨version, member, key⟩, claim, member', own, value, bytes, same.symm.trans expires⟩
    · exact ⟨⟨version, member, key⟩, _, member', rfl, value, rfl, expires⟩
    · exact absurd blocked not_blocked_share
  obtain ⟨present, claim, member, own, value, bytes, expires⟩ := claimed
  refine ⟨present, fun version inside key => ?_⟩
  obtain ⟨stored, other, value', data, -, member', own', bytes', same⟩ :=
    invite_version kept tokens version inside key
  cases bytes'.symm.trans
    ((alike other member' claim member ⟨operationId, own'⟩ (own'.trans own.symm)).trans bytes)
  exact ⟨stored, data, same.trans expires⟩

end

/-! ## Runs -/

/-- The answer says that the operation was used for another share. -/
def mismatched : (call : ChannelCall) → call.Reply → Bool
  | .shareInvite .., .rejected .operationMismatch => true
  | .personalLink .., .rejected .operationMismatch => true
  | _, _ => false

def shareGrant : (call : ChannelCall) → call.Reply → Option ShareGrant
  | .shareInvite .., .ok shared => some shared
  | .personalLink .., .ok shared => some shared
  | _, _ => none

/-- The call shares under the operation, by itself or for a personal link. -/
def SharesUnder (runtime : AdmissionRuntime) (operationId : Text) : ChannelCall → Prop
  | .shareInvite _ own _ _ => own = operationId
  | .personalLink ownerId roomId =>
    ∃ generation, runtime.personal ownerId roomId generation = operationId
  | _ => False

section

variable (runtime) (uses)

/-- Calls share as their operations are used. -/
def Retries (config : Config (channelService runtime)) : Move (channelService runtime) → Prop
  | .start thread => ∀ call client, config.threads thread = .idle (.perform call client) →
  Uses runtime uses call
  | _ => True

/-- Calls share as their operations are used, and each new invite has the expiry and the generation
that its operation has been used with before. -/
def RetriesAlike (config : Config (channelService runtime)) : Move (channelService runtime) → Prop
  | .start thread => ∀ call client, config.threads thread = .idle (.perform call client) →
  Uses runtime uses call
  | .effect thread _ => ∀ tag call op next client,
    config.threads thread = .busy tag call (.perform op next) client →
    SameBytes config.store op
  | .outside _ => True

/-- No share is taken for another use of its operation, and all that are granted under one operation
are granted the invite that is stored. -/
structure Idempotent (log : List (Answer (channelService runtime)))
    (config : Config (channelService runtime)) : Prop where
  accepted : ∀ answer ∈ log, mismatched answer.call answer.reply = false
  reference : ∀ answer ∈ log, ∀ shared, shareGrant answer.call answer.reply = some shared →
    ∃ operationId, SharesUnder runtime operationId answer.call
      ∧ shared.inviteRef = runtime.token operationId
  stored : ∀ answer ∈ log, ∀ shared, shareGrant answer.call answer.reply = some shared →
    Expires config.store shared.inviteRef shared.expiresAt
  same : ∀ answer ∈ log, ∀ other ∈ log, ∀ shared again,
    shareGrant answer.call answer.reply = some shared →
    shareGrant other.call other.reply = some again → shared.inviteRef = again.inviteRef →
      shared = again

end

section

variable {start config : Config (channelService runtime)}
    {log : List (Answer (channelService runtime))}

/-- All claims of a share are for the same invite. -/
theorem Retries.alike (run : Run (RetriesAlike runtime uses) start log config)
    (fresh : start.store.claims = []) : Alike (T := channelSetting) IsShare config.store := by
  induction run with
  | nil => exact fun one member => by simp [fresh] at member
  | @step log config after move answers before permitted moved ih =>
    refine ih.step moved
      fun thread choice tag call key expected operation data next client same busy kind => ?_
    subst same
    obtain ⟨operationId, rfl⟩ := kind
    exact permitted tag call _ next client busy

/-- What a true answer to a share tells, once nothing is blocked. -/
theorem shared_of_true (kept : Kept (channelRules runtime (sharing runtime uses)) store)
    (tokens : Function.Injective runtime.token) (alike : Alike (T := channelSetting) IsShare store)
    {tag : Nat} {call : ChannelCall} (used : Uses runtime uses call) {reply : call.Reply}
    (told : Once (channelRules runtime (sharing runtime uses))
      (ChannelTrue runtime (sharing runtime uses) tag call reply) store) :
    mismatched call reply = false ∧ ∀ shared, shareGrant call reply = some shared →
      shared = grant runtime shared.inviteRef shared.expiresAt ∧
        (∃ operationId, SharesUnder runtime operationId call
          ∧ shared.inviteRef = runtime.token operationId) ∧
        Expires store shared.inviteRef shared.expiresAt := by
  obtain ⟨moment, order, grown, told⟩ := told
  -- Only the two calls that share an invite can answer with a grant or a mismatch.
  cases call with
  | shareInvite ownerId operationId roomId asked =>
    cases reply with
    | ok value =>
      refine ⟨rfl, ?_⟩
      rintro shared ⟨⟩
      -- Either the answer says nothing, or the invite was stored.
      rcases told with neutral | ⟨policy, -, shape, granted⟩
      · exact absurd rfl (neutral.1 value)
      have reference : value.inviteRef = runtime.token operationId :=
        congrArg ShareGrant.inviteRef shape
      rw [reference]
      exact ⟨shape, ⟨operationId, rfl, rfl⟩,
        (persistent_granted _ _ grown granted).expires kept tokens alike⟩
    | rejected code =>
      refine ⟨?_, nofun⟩
      cases code with
      | operationMismatch =>
        -- A mismatch would need a record of the operation under another policy.
        rcases told with neutral | ⟨policy, stored, refused⟩
        · exact absurd rfl neutral.2
        · exact absurd refused (not_refused order tokens (used policy stored))
      | authRequired => rfl
      | forbidden => rfl
      | identityMismatch => rfl
      | revoked => rfl
      | expired => rfl
    | unavailable => exact ⟨rfl, nofun⟩
    | outcomeUnknown operation => exact ⟨rfl, nofun⟩
    | threw => exact ⟨rfl, nofun⟩
  | personalLink ownerId roomId =>
    cases reply with
    | ok value =>
      refine ⟨rfl, ?_⟩
      rintro shared ⟨⟩
      -- A personal link is granted with the generation that it belongs to.
      obtain ⟨generation, shape, granted, -⟩ := told
      have reference :
        value.inviteRef = runtime.token (runtime.personal ownerId roomId generation) :=
        congrArg ShareGrant.inviteRef shape
      rw [reference]
      exact ⟨shape, ⟨_, ⟨generation, rfl⟩, rfl⟩,
        (persistent_granted _ _ grown granted).expires kept tokens alike⟩
    | rejected code =>
      refine ⟨?_, nofun⟩
      cases code with
      | operationMismatch =>
        -- Neither the invite nor the pointer can be there with other data.
        rcases told with ⟨generation, refused⟩ | ⟨expected, generation, blocked⟩
        · exact absurd refused (not_refused order tokens (used generation))
        · exact absurd blocked not_blocked_pointer
      | authRequired => rfl
      | forbidden => rfl
      | identityMismatch => rfl
      | revoked => rfl
      | expired => rfl
    | unavailable => exact ⟨rfl, nofun⟩
    | outcomeUnknown operation => exact ⟨rfl, nofun⟩
    | threw => exact ⟨rfl, nofun⟩
  | recordRemoval roomId creatorOwnerId ownerId agents label => exact ⟨rfl, nofun⟩
  | completeRemoval roomId ownerId generation => exact ⟨rfl, nofun⟩
  | inviteRemovalState invite ownerId => exact ⟨rfl, nofun⟩
  | setAgentRemoved roomId userId removed => exact ⟨rfl, nofun⟩
  | readEligibleInvite inviteRef principal => exact ⟨rfl, nofun⟩
  | revokeInvite ownerId operationId inviteRef => exact ⟨rfl, nofun⟩

/-- In every run in which each new invite has the expiry and the generation its operation has been
used with, sharing is idempotent. -/
theorem sharing_idempotent (tokens : Function.Injective runtime.token) (idle : start.Idle)
    {now : Int} (fresh : start.store = emptyStore now)
    (run : Run (RetriesAlike runtime uses) start log config) :
    Idempotent runtime log config := by
  have original : Original (channelRules runtime (sharing runtime uses)) start.store :=
    fresh ▸ emptyStore_original now
  have starts : ∀ config thread call client, RetriesAlike runtime uses config (.start thread) →
      config.threads thread = .idle (.perform call client) → Uses runtime uses call :=
    fun config thread call client permitted ready => permitted call client ready
  -- Along the run every call under way may use its operations.
  have stronger : Run (fun config move => RetriesAlike runtime uses config move
    ∧ config.Calling (Uses runtime uses)) start log
      config := (run.strengthen (idle.calling _)
        (fun calling permitted moved => (Config.Calling.step calling moved
        fun thread call client same ready =>
          starts _ thread call client (same ▸ permitted) ready).1)
          fun calling permitted => ⟨permitted, calling⟩).1
  have respects : Respects (channelRules runtime (sharing runtime uses))
    fun (config : Config (channelService runtime)) move =>
      RetriesAlike runtime uses config move ∧ config.Calling (Uses runtime uses) := by
    intro config thread choice tag call op next client permitted busy
    refine ⟨permitted.1 tag call op next client busy, ?_⟩
    cases op with
    | compareAndSet key expected operation data => exact permitted.2 thread tag call _ client busy
    | read key => trivial
    | resolve key operation => trivial
    | clock => trivial
    | random => trivial
    | ask question => trivial
  obtain ⟨kept, answered⟩ := shared_run respects channel_follow idle original.kept stronger
  have alike := Retries.alike run (fresh ▸ rfl)
  have told : ∀ answer ∈ log, _ := fun answer member =>
    shared_of_true kept tokens alike ((run.calling idle starts).2 answer member)
      (answered answer member)
  refine ⟨fun answer member => (told answer member).1, fun answer member shared granted =>
    ((told answer member).2 shared granted).2.1,
    fun answer member shared granted => ((told answer member).2 shared granted).2.2,
    fun answer member other member' shared again granted granted' same => ?_⟩
  obtain ⟨shape, -, ⟨version, inside, key⟩, expires⟩ := (told answer member).2 shared granted
  obtain ⟨shape', -, -, expires'⟩ := (told other member').2 again granted'
  obtain ⟨invite, data, one⟩ := expires version inside key
  obtain ⟨invite', data', two⟩ := expires' version inside (same ▸ key)
  cases data.symm.trans data'
  rw [shape, shape', same, ← one, ← two]

end

/-! ## A retry -/

private abbrev lasting : AdmissionRuntime := plainRuntime (some 1000)

private def oneUse : Text → ShareUse := fun _ => ⟨plainCreator, plainRoom, .link false⟩

/-- The creator shares the room, and does so again under the same operation. -/
private def sharingTwice : Config (channelService lasting) where
  store := emptyStore 0
  threads
    | 0 => .idle (do
      let _ ← @Program.call channelCalls (.shareInvite plainCreator [6] plainRoom none)
      let _ ← @Program.call channelCalls (.shareInvite plainCreator [6] plainRoom none))
    | _ => .idle (.done ())
  next := 0

/-- The first share claims its operation, and nothing more is heard of its write. -/
private def lostShare : List (Move (channelService lasting)) :=
  let lost : Fate → Move (channelService lasting) := fun fate => .effect 0 ⟨true, fate, 0, fun
    | .currentPrincipal _ => .signedIn
    | .canShare .. => .allowed⟩
  .start 0 :: channelSteps 0 0 5 ++ [lost (.unknown false), lost .unavailable]

/-- No call has begun. -/
private theorem sharingTwice_idle : sharingTwice.Idle
  | 0 => ⟨_, rfl⟩
  | _ + 1 => ⟨_, rfl⟩

/-- Whether a call is the share of the example. -/
private def isTheShare : ChannelCall → Bool
  | .shareInvite ownerId _ roomId none => ownerId = plainCreator ∧ roomId = plainRoom
  | _ => false

/-- The check of the call is sound. -/
private theorem uses_of_isTheShare {call : ChannelCall} (same : isTheShare call = true) :
    Uses lasting oneUse call := by
  cases call with
  | shareInvite ownerId operationId roomId asked =>
    -- The call is the one share, which names no policy.
    cases asked with
    | none =>
      obtain ⟨rfl, rfl⟩ := of_decide_eq_true same
      rintro policy ⟨⟩
      rfl
    | some policy => cases same
  | recordRemoval roomId creatorOwnerId ownerId agents label => cases same
  | completeRemoval roomId ownerId generation => cases same
  | inviteRemovalState invite ownerId => cases same
  | setAgentRemoved roomId userId removed => cases same
  | readEligibleInvite inviteRef principal => cases same
  | personalLink ownerId roomId => cases same
  | revokeInvite ownerId operationId inviteRef => cases same

/-- A move that starts the share or is not a start. -/
private def retriesCheck (config : Config (channelService lasting)) :
    Move (channelService lasting) → Bool
  | .start thread => match config.threads thread with
    | .idle (.perform call _) => isTheShare call
    | _ => true
  | _ => true

/-- The check of the condition is sound. -/
private theorem retries_of_check {config : Config (channelService lasting)}
    {move : Move (channelService lasting)} (passed : retriesCheck config move = true) :
    Retries lasting oneUse config move := by
  cases move with
  | start thread =>
    intro call client ready
    simp only [retriesCheck, ready] at passed
    exact uses_of_isTheShare passed
  | effect thread choice => trivial
  | outside event => trivial

/-- A share whose response is lost and that is retried a second later, when its invite would expire
a second later, is refused as another use of its operation. -/
theorem retried_share_refused :
    ¬ ∀ (log : List (Answer (channelService lasting))) (config : Config (channelService lasting)),
    Run (Retries lasting oneUse) sharingTwice log config → Idempotent lasting log config := by
  have ran : ∃ log config, execute retriesCheck sharingTwice
      (lostShare ++ .outside (.clock 1000) :: .start 0 :: channelSteps 0 0 6)
        = some (log, config)
      ∧ ∃ answer ∈ log, mismatched answer.call answer.reply = true :=
    ⟨_, _, rfl, _, List.mem_cons_of_mem _ List.mem_cons_self, rfl⟩
  intro always
  obtain ⟨log, config, done, answer, member, refused⟩ := ran
  have accepted :=
    (always log config ((Run.of_execute done).mono fun _ _ => retries_of_check)).accepted answer
    member
  rw [refused] at accepted
  cases accepted

/-- Whether a move also writes what its operation has been used with. -/
private def alikeCheck (config : Config (channelService lasting))
    (move : Move (channelService lasting)) : Bool :=
  retriesCheck config move && match move with
    | .effect thread _ => match config.threads thread with
      | .busy _ _ (.perform (.compareAndSet _ _ (.share operationId) data) _) _ =>
        config.store.claims.all fun claim =>
          decide (claim.operation = .share operationId → claim.data = data)
      | _ => true
    | _ => true

/-- The check that retries are alike is sound. -/
private theorem retriesAlike_of_check {config : Config (channelService lasting)}
    {move : Move (channelService lasting)} (passed : alikeCheck config move = true) :
    RetriesAlike lasting oneUse config move := by
  simp only [alikeCheck, Bool.and_eq_true] at passed
  cases move with
  | start thread => exact retries_of_check passed.1
  | outside event => trivial
  | effect thread choice =>
    -- Only a write claims an operation, and only a share has one that can be repeated.
    intro tag call op next client busy
    cases op with
    | compareAndSet key expected operation data =>
      cases operation with
      | share operationId =>
        -- The check has looked at each claim of the operation.
        have all := passed.2
        simp only [busy] at all
        exact fun claim member => of_decide_eq_true (List.all_eq_true.mp all claim member)
      | remove random => trivial
      | complete random => trivial
      | agentRemoved random => trivial
      | revoke operationId => trivial
      | pointer ownerId roomId generation => trivial
    | read key => trivial
    | resolve key operation => trivial
    | clock => trivial
    | random => trivial
    | ask question => trivial

/-- A share whose response is lost and that is retried at once is granted the invite that is then
stored. -/
theorem sharing_idempotent_retried :
    ∃ log config, Run (RetriesAlike lasting oneUse) sharingTwice log config
    ∧ Idempotent lasting log config
    ∧ ∃ answer ∈ log,
      shareGrant answer.call answer.reply = some (grant lasting [6] (some 1000)) := by
  have ran : ∃ log config,
    execute alikeCheck sharingTwice (lostShare ++ Move.start 0 :: channelSteps 0 0 6)
    = some (log, config)
      ∧ ∃ answer ∈ log,
        shareGrant answer.call answer.reply = some (grant lasting [6] (some 1000)) :=
    ⟨_, _, rfl, _, List.mem_cons_of_mem _ List.mem_cons_self, rfl⟩
  obtain ⟨log, config, done, granted⟩ := ran
  have run : Run (RetriesAlike lasting oneUse) sharingTwice log config :=
    (Run.of_execute done).mono fun _ _ => retriesAlike_of_check
  exact ⟨log, config, run, sharing_idempotent Function.injective_id sharingTwice_idle rfl run,
    granted⟩

end Khala.Channels
