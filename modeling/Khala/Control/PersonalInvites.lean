import Khala.Control.RemovalGenerations

/-! The invites of a personal link: how they come about, what ends them, and when one lets a human
pass. -/

namespace Khala.Channels

open Js Concurrent

variable (runtime : AdmissionRuntime) (ownerId : OwnerId) (roomId : RoomId)

/-- No two texts have the same keyed digest. -/
structure Apart : Prop where
  token : Function.Injective runtime.token
  personal : ∀ {ownerId roomId generation ownerId' roomId' generation'},
    runtime.personal ownerId roomId generation = runtime.personal ownerId' roomId' generation' →
      ownerId = ownerId' ∧ roomId = roomId' ∧ generation = generation'

/-- The reference of the invite that a personal link has at a generation of its pointer. -/
abbrev personalRef (generation : Nat) : Text :=
  runtime.token (runtime.personal ownerId roomId generation)

/-- The call shares under no operation of a personal link, unless it asks for the link. -/
def Foreign : ChannelCall → Prop
  | .shareInvite _ operationId _ _ => ∀ ownerId roomId generation,
    operationId ≠ runtime.personal ownerId roomId generation
  | _ => True

/-- The room has the invite. -/
def HasInvite (store : ChannelStore) (generation : Nat) (value : InviteRecord) : Prop :=
  ∃ version ∈ store.versions, version.key = .invite (personalRef runtime ownerId roomId generation)
    ∧ version.data = .invite value

/-- An invite that nobody passes with any more: it is revoked, it has expired, or it is older than a
removal of its creator. -/
def Over (store : ChannelStore) (value : InviteRecord) : Prop :=
  value.status = .revoked ∨ (∃ time, value.expiresAt = some time ∧ time ≤ store.now) ∨
    ∃ entry, Recorded store roomId ownerId entry ∧ value.removalGeneration.getD 0 < entry.generation

/-- The personal link's invite of a generation is over. -/
def Dead (store : ChannelStore) (generation : Nat) : Prop :=
  ∃ value, HasInvite runtime ownerId roomId store generation value ∧ Over ownerId roomId store value

/-- Removals may be there at first, but no invite and no pointer. -/
def LinkFirst (key : ChannelKey) (data : ChannelData) : Prop :=
  RemovalsFirst key data ∧ (∀ inviteRef, key ≠ .invite inviteRef) ∧ ∀ ownerId roomId,
    key ≠ .pointer ownerId roomId

section

variable {ownerId roomId} {before after : ChannelStore}
    (grown : Grown (fun _ _ => True) before after)

include grown

/-- A record stays where it was. -/
theorem RecordAt.grow {version : SharedVersion channelSetting} {record : RoomRemovals}
    (held : RecordAt before roomId version record) : RecordAt after roomId version record :=
  ⟨grown.later.mem held.member, held.key, held.data⟩

/-- A removal that was recorded stays so. -/
theorem Recorded.grow {entry : OwnerRemoval} (recorded : Recorded before roomId ownerId entry) :
    Recorded after roomId ownerId entry := by
  obtain ⟨version, record, held, found⟩ := recorded
  exact ⟨version, record, held.grow grown, found⟩

/-- An invite that is there stays there. -/
theorem HasInvite.grow {runtime : AdmissionRuntime} {generation : Nat} {value : InviteRecord}
    (has : HasInvite runtime ownerId roomId before generation value) :
    HasInvite runtime ownerId roomId after generation value := by
  obtain ⟨version, member, rest⟩ := has
  exact ⟨version, grown.later.mem member, rest⟩

/-- An invite that is over stays over. -/
theorem Over.grow {value : InviteRecord} (over_ : Over ownerId roomId before value) :
    Over ownerId roomId after value := by
  rcases over_ with revoked | ⟨time, expires, past⟩ | ⟨entry, recorded, older⟩
  · exact Or.inl revoked
  · exact Or.inr (Or.inl ⟨time, expires, past.trans grown.clock⟩)
  · exact Or.inr (Or.inr ⟨entry, recorded.grow grown, older⟩)

/-- An invite that is dead stays dead. -/
theorem Dead.grow {runtime : AdmissionRuntime} {generation : Nat}
    (dead : Dead runtime ownerId roomId before generation) :
    Dead runtime ownerId roomId after generation := by
  obtain ⟨value, has, over_⟩ := dead
  exact ⟨value, has.grow grown, over_.grow grown⟩

end

/-- The pointer of the owner's link in the room moves on only from an invite that is over. -/
def linking (seen : ChannelStore → Prop) : Regime where
  first := LinkFirst
  seen := fun store _ _ => seen store
  extra := fun store call _ _ operation _ => Foreign runtime call ∧
    ∀ generation, operation = .pointer ownerId roomId (generation + 1) →
      Dead runtime ownerId roomId store generation
  stable := fun grown held => ⟨held.1, fun generation same => (held.2 generation same).grow grown⟩

variable {runtime ownerId roomId} {seen : ChannelStore → Prop} {store : ChannelStore}

/-! ## How invites come about -/

/-- An invite that a request for the link has made, and that is at most revoked since. -/
structure PersonalInvite (runtime : AdmissionRuntime) (ownerId : OwnerId) (roomId : RoomId)
    (generation : Nat) (value : InviteRecord) : Prop where
  room : value.roomId = roomId
  creator : value.creatorOwnerId = ownerId
  digest : value.inviteRefDigest = runtime.inviteRefDigest
    (personalRef runtime ownerId roomId generation)
  policy : value.policy = .link false
  authorized : value.lastAuthorizedOperationDigest = none
  removalGeneration : ∃ number, value.removalGeneration = some number ∧ isSafeInteger number = true

/-- An invite of a personal link is read as it is. -/
theorem PersonalInvite.read {generation : Nat} {value : InviteRecord}
    (personal : PersonalInvite runtime ownerId roomId generation value) :
    readInviteRecord (.invite value) = some value := by
  obtain ⟨number, same, safe⟩ := personal.removalGeneration
  have digest : value.inviteRefDigest ≠ [] := personal.digest ▸ runtime.inviteRefDigest_ne _
  have kept : value.removalGeneration.filter isSafeInteger = value.removalGeneration := by
    rw [same, Option.filter_some, if_pos safe]
  have fields : value.inviteRefDigest ≠ [] ∧ value.lastAuthorizedOperationDigest ≠ some []
    ∧ readStoredPolicy value.policy = true := by
    rw [personal.authorized, personal.policy]
    exact ⟨digest, nofun, rfl⟩
  rw [readInviteRecord, if_pos fields, kept]

/-- A write of an invite of the link, by what it expects. -/
theorem personal_rule (apart : Apart runtime) {expected : Option Nat}
    {author : Author ChannelOperation (Caller channelSetting)} {data : ChannelData}
    {generation : Nat}
    (rule : (channelRules runtime (linking runtime ownerId roomId seen)).rule store
      ⟨.invite (personalRef runtime ownerId roomId generation), expected, author, data⟩) :
    (expected = none ∧ author.operation = .share (runtime.personal ownerId roomId generation)
      ∧ (∃ revision, HasVersion (T := channelSetting)
        (.pointer ownerId roomId) revision (.pointer generation) store)
      ∧ ∃ value, data = .invite value ∧ value.status = .active
      ∧ PersonalInvite runtime ownerId roomId generation value) ∨
    ∃ revision old invite, expected = some revision ∧ HasVersion (T := channelSetting)
        (.invite (personalRef runtime ownerId roomId generation)) revision old store
          ∧ readInviteRecord old = some invite
      ∧ data = .invite { invite with status := .revoked,
                                     lastAuthorizedOperationDigest := none } := by
  obtain ⟨tag, call, -, rule, foreign, -⟩ := rule
  -- The operation of the author tells what may be written under the key of an invite.
  cases operation : author.operation with
  | share operationId =>
    rw [operation] at rule
    -- A shared invite is new, and only the personal link shares under this name.
    obtain ⟨owner, room, policy, value, shares, named, rfl, rfl, new⟩ := rule
    cases apart.token (ChannelKey.invite.inj named)
    rcases shares with ⟨asked, rfl, -⟩ | ⟨rfl, rfl, number, revision, same, pointed⟩
    · exact absurd rfl (foreign ownerId roomId generation)
    · obtain ⟨rfl, rfl, rfl⟩ := apart.personal same
      exact Or.inl ⟨rfl, rfl, ⟨revision, pointed⟩, value, rfl, new.status, new.roomId,
        new.creatorOwnerId,
        new.inviteRefDigest, new.policy, new.authorized, new.removalGeneration⟩
  | revoke operationId =>
    rw [operation] at rule
    -- A revocation replaces the invite by one that is revoked.
    obtain ⟨owner, inviteRef, revision, old, invite, -, -, same, has, read, -, data⟩ := rule
    exact Or.inr ⟨revision, old, invite, same, has, read, data⟩
  -- The other operations write under other keys.
  | remove random =>
    rw [operation] at rule
    obtain ⟨room, creatorOwnerId, owner, agents, label, previous, -, named, -⟩ := rule
    cases named
  | complete random =>
    rw [operation] at rule
    obtain ⟨room, owner, record, entry, -, named, -⟩ := rule
    cases named
  | agentRemoved random =>
    rw [operation] at rule
    obtain ⟨room, userId, removed, -, named, -⟩ := rule
    cases named
  | pointer owner room number =>
    rw [operation] at rule
    cases rule.2.1

/-- Under the reference of the link there are invites of the link, and the pointer has named them.
-/
theorem personal_version (apart : Apart runtime)
    (kept : Kept (channelRules runtime (linking runtime ownerId roomId seen)) store)
    (generation : Nat) :
    ∀ version ∈ store.versions,
      version.key = .invite (personalRef runtime ownerId roomId generation) →
      (∃ value, version.data = .invite value
        ∧ PersonalInvite runtime ownerId roomId generation value)
        ∧ ∃ revision, HasVersion (T := channelSetting)
          (.pointer ownerId roomId) revision (.pointer generation) store := by
  refine kept.all (fun _ _ => rfl) _ (fun version _ _ first key => absurd key (first.2.1 _))
    (fun version _ rule key => ?_)
    fun old inside version _ same rule held key => ?_
  -- The first version of an invite comes from the personal link.
  · rw [key] at rule
    rcases personal_rule apart rule
      with ⟨-, -, pointed, value, data, -, personal⟩ | ⟨revision, old, invite, expected, -⟩
    · exact ⟨⟨value, data, personal⟩, pointed⟩
    · cases expected
  -- A later one is a revocation, which keeps all but the status.
  · obtain ⟨⟨value, data, personal⟩, pointed⟩ := held (same.trans key)
    rw [key] at rule
    rcases personal_rule apart rule
      with ⟨expected, -⟩ | ⟨revision, before, invite, expected, has, read, written⟩
    · cases expected
    · cases expected
      rw [has.eq inside, data] at read
      cases personal.read.symm.trans read
      exact ⟨⟨_, written, personal.room, personal.creator, personal.digest, personal.policy, rfl,
        personal.removalGeneration⟩, pointed⟩

/-- A later invite under a reference differs from an earlier one in that it may be revoked. -/
structure Carries (old new : InviteRecord) : Prop where
  expiresAt : new.expiresAt = old.expiresAt
  removalGeneration : new.removalGeneration = old.removalGeneration
  revoked : old.status = .revoked → new.status = .revoked

/-- A later version of an invite is the earlier one, or that one revoked. -/
theorem personal_since (apart : Apart runtime)
    (kept : Kept (channelRules runtime (linking runtime ownerId roomId seen)) store)
    {generation : Nat} {earlier later : SharedVersion channelSetting} {old new : InviteRecord}
    (inside : earlier ∈ store.versions)
    (key : earlier.key = .invite (personalRef runtime ownerId roomId generation))
    (data : earlier.data = .invite old) (inside' : later ∈ store.versions)
    (key' : later.key = earlier.key) (data' : later.data = .invite new)
    (order : earlier.etag ≤ later.etag) : Carries old new := by
  -- What a later invite carries is shown version by version.
  have all :=
    kept.since (fun _ _ => rfl) inside (fun version => ∃ value, version.data = .invite value
      ∧ Carries old value)
    ⟨old, data, rfl, rfl, id⟩ fun before member after member' named _ same _ rule held => ?_
  · obtain ⟨value, content, carries⟩ := all later inside' key' order
    cases content.symm.trans data'
    exact carries
  · obtain ⟨value, content, carries⟩ := held
    obtain ⟨⟨_, shape, personal⟩, -⟩ :=
      personal_version apart kept generation before member (same.trans (named.trans key))
    cases content.symm.trans shape
    rw [named.trans key] at rule
    rcases personal_rule apart rule
      with ⟨expected, -⟩ | ⟨revision, bytes, invite, expected, has, read, written⟩
    · cases expected
    · cases expected
      rw [has.eq member, content] at read
      cases personal.read.symm.trans read
      exact ⟨_, written, carries.expiresAt, carries.removalGeneration, fun _ => rfl⟩

/-- The pointer has left behind only invites that are over. -/
theorem pointer_left
    (kept : Kept (channelRules runtime (linking runtime ownerId roomId seen)) store) :
    ∀ version ∈ store.versions, version.key = .pointer ownerId roomId → ∀ generation,
      version.data = .pointer generation →
      ∀ earlier < generation, Dead runtime ownerId roomId store earlier := by
  -- A pointer is the first one, or one further than the pointer it replaces.
  have rule_pointer : ∀ {expected : Option Nat}
    {author : Author ChannelOperation (Caller channelSetting)} {data : ChannelData},
      (channelRules runtime (linking runtime ownerId roomId seen)).rule store
        ⟨.pointer ownerId roomId, expected, author, data⟩ →
      ∃ generation, data = .pointer generation
        ∧ (expected = none ∧ generation = 0 ∨ ∃ revision before,
        expected = some revision ∧ HasVersion (T := channelSetting)
          (.pointer ownerId roomId) revision (.pointer before) store
          ∧ generation = before + 1 ∧ Dead runtime ownerId roomId store before) := by
    rintro expected author data ⟨tag, call, -, rule, -, moved⟩
    -- Only a pointer operation writes under such a key.
    cases operation : author.operation with
    | pointer owner room generation =>
      rw [operation] at rule
      obtain ⟨-, named, data, first | ⟨revision, before, number, invite, expected, has, rfl, -⟩⟩ :=
        rule
      · exact ⟨generation, data, Or.inl first⟩
      · cases named
        exact ⟨_, data, Or.inr ⟨revision, before, expected, has, rfl, moved before operation⟩⟩
    | share operationId =>
      rw [operation] at rule
      obtain ⟨owner, room, policy, value, -, named, -⟩ := rule
      cases named
    | revoke operationId =>
      rw [operation] at rule
      obtain ⟨owner, inviteRef, revision, old, invite, -, named, -⟩ := rule
      cases named
    | remove random =>
      rw [operation] at rule
      obtain ⟨room, creatorOwnerId, owner, agents, label, previous, -, named, -⟩ := rule
      cases named
    | complete random =>
      rw [operation] at rule
      obtain ⟨room, owner, record, entry, -, named, -⟩ := rule
      cases named
    | agentRemoved random =>
      rw [operation] at rule
      obtain ⟨room, userId, removed, -, named, -⟩ := rule
      cases named
  -- The invites before the pointer were dead when it moved, and nothing revives one.
  refine kept.all (fun _ _ => rfl) _ (fun version _ _ first key => absurd key (first.2.2 _ _))
    (fun version _ rule key => ?_)
    fun old inside version _ same rule held key => ?_
  · rw [key] at rule
    obtain ⟨generation, data, ⟨-, rfl⟩ | ⟨revision, before, expected, -⟩⟩ := rule_pointer rule
    · intro other shape earlier less
      cases data.symm.trans shape
      exact absurd less (Nat.not_lt_zero _)
    · cases expected
  · rw [key] at rule
    obtain ⟨generation, data, ⟨expected, -⟩ | ⟨revision, before, expected, has, rfl, dead⟩⟩ :=
      rule_pointer rule
    · cases expected
    · cases expected
      intro other shape earlier less
      cases data.symm.trans shape
      -- Each earlier generation was passed before, or by this very move.
      rcases Nat.lt_succ_iff_lt_or_eq.mp less with more | rfl
      · exact held (same.trans key) before (has.eq inside).symm earlier more
      · exact dead

end Khala.Channels
