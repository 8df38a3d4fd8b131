import Khala.Control.PersonalInvites
import Khala.Concurrent.Watch

/-! One active personal link: when its pointer moves on from an invite only once that is over, at
most one lets a human pass, and a request for the link is answered with one that did. -/

namespace Khala.Channels

open Js Concurrent

variable (runtime : AdmissionRuntime)

/-! ## Passing -/

/-- Every operation is answered. -/
def answered : StoreChoice channelSetting := ⟨true, .answered, 0, fun
  | .currentPrincipal _ => .signedIn
  | .canShare .. => .allowed⟩

/-- The human passes `readEligibleInvite` with the invite, as the store is now. -/
def LetsPass (store : ChannelStore) (inviteRef : Text) (principal : AuthPrincipal) : Prop :=
  ∃ invite revision after, (readEligibleInvite runtime inviteRef principal).alone
    (execShared (T := channelSetting) 0 (ChannelCall.readEligibleInvite inviteRef principal))
      answered store
      = some (.eligible invite revision, after)

variable {runtime} {store : ChannelStore} {inviteRef : Text} {principal : AuthPrincipal}
    {tag : Nat} {call : ChannelCall}

/-- What a read is answered when it is answered. -/
theorem alone_read {α : Type} (key : ChannelKey) (rest : ReadReply ChannelData → ChannelProgram α) :
    (StoreProgram.read (T := channelSetting) key >>= rest).alone
    (execShared tag call) answered store
      = (rest (match store.register.current (fun _ => true) key with
        | some version => .record version.etag version.data
        | none => .absent)).alone (execShared tag call) answered store := by
  rw [Program.alone_bind]
  cases found : store.register.current (fun _ => true) key with
  | none => simp [StoreProgram.read, Program.call, Program.alone, execShared, Register.read,
    answered, found]
  | some version =>
    simp [StoreProgram.read, Program.call, Program.alone, execShared, Register.read,
      answered, found]

/-- Run alone, an invite has expired when its time is past. -/
theorem alone_hasExpired {α : Type} (expiresAt : Option Int) (rest : Bool → ChannelProgram α) :
    (hasExpired expiresAt >>= rest).alone (execShared tag call) answered store
      = (rest (expiresAt.any fun time => decide (time ≤ store.now))).alone
        (execShared tag call) answered store := by
  rw [Program.alone_bind]
  cases expiresAt <;> rfl

/-- What the removals of a room, as they are now, mean for an invite. -/
def removalNow (store : ChannelStore) (invite : InviteRecord) (ownerId : Option OwnerId) :
    RemovalState :=
  match store.register.current (fun _ => true) (.removals invite.roomId) with
  | none => .allowed
  | some version => match version.data with
    | .removals removals => if validRemovals removals then removalState removals invite ownerId
      else .unavailable
    | _ => .unavailable

/-- Run alone, the state of removals is that of the moment. -/
theorem alone_removalState (invite : InviteRecord) (ownerId : Option OwnerId) :
    (inviteRemovalState invite ownerId).alone (execShared tag call) answered store
      = some (removalNow store invite ownerId, store) := by
  -- The removals of the room are read once, and decide.
  unfold inviteRemovalState readRoomRemovals removalNow
  rw [bind_assoc, alone_read]
  cases found : store.register.current (fun _ => true) (.removals invite.roomId) with
  | none => rfl
  | some version =>
    obtain ⟨versionKey, data, etag, author⟩ := version
    cases data with
    | removals removals =>
      dsimp only
      split <;> rfl
    | agentRemoved removed => rfl
    | invite value => rfl
    | pointer generation => rfl
    | other => rfl

/-- An invite is allowed exactly when no recorded removal is newer. -/
theorem removalNow_eq_allowed {invite : InviteRecord} {ownerId : Option OwnerId} :
    removalNow store invite ownerId = .allowed ↔ Allows invite ownerId store := by
  unfold removalNow Allows
  cases found : store.register.current (fun _ => true) (.removals invite.roomId) with
  | none => simp
  | some version =>
    obtain ⟨versionKey, data, etag, author⟩ := version
    cases data with
    | removals removals => by_cases valid : validRemovals removals = true <;> simp [valid]
    | agentRemoved removed => simp
    | invite value => simp
    | pointer generation => simp
    | other => simp

/-- When a human passes with an invite. -/
structure Passing (runtime : AdmissionRuntime) (store : ChannelStore) (inviteRef : Text)
    (principal : AuthPrincipal) (version : SharedVersion channelSetting) (invite : InviteRecord) :
    Prop where
  current : store.register.current (fun _ => true) (.invite inviteRef) = some version
  read : readInviteRecord version.data = some invite
  digest : invite.inviteRefDigest = runtime.inviteRefDigest inviteRef
  live : ∀ time, invite.expiresAt = some time → store.now < time
  removals : Allows invite (some principal.ownerId) store
  active : invite.status = .active
  policy : policyAllows runtime principal invite.policy = true

/-- An invite lets somebody pass exactly when one of its records does. -/
theorem letsPass_iff : LetsPass runtime store inviteRef principal ↔
    ∃ version invite, Passing runtime store inviteRef principal version invite := by
  -- The invite is found or it is not, and is read from its record.
  unfold LetsPass readEligibleInvite
  rw [alone_read]
  cases found : store.register.current (fun _ => true) (.invite inviteRef) with
  | none =>
    refine ⟨(by rintro ⟨_, _, _, same⟩; cases same), ?_⟩
    rintro ⟨version, invite, passing⟩
    cases found.symm.trans passing.current
  | some version =>
    dsimp only
    cases read : readInviteRecord version.data with
    | none =>
      refine ⟨(by rintro ⟨_, _, _, same⟩; cases same), ?_⟩
      rintro ⟨other, invite, passing⟩
      cases found.symm.trans passing.current
      cases read.symm.trans passing.read
    | some invite =>
      -- There is one such invite, so the claim is about it.
      have only : (∃ other found, Passing runtime store inviteRef principal other found) ↔
          Passing runtime store inviteRef principal version invite := by
        refine ⟨?_, fun passing => ⟨version, invite, passing⟩⟩
        rintro ⟨other, value, passing⟩
        cases found.symm.trans passing.current
        cases read.symm.trans passing.read
        exact passing
      rw [only]
      dsimp only
      -- Its checks come in this order: digest, expiry, removals, status, policy.
      by_cases digest : invite.inviteRefDigest = runtime.inviteRefDigest inviteRef
      · rw [if_neg (not_not.mpr digest), alone_hasExpired]
        by_cases expired : (invite.expiresAt.any fun time => decide (time ≤ store.now)) = true
        · obtain ⟨time, expires, past⟩ := Option.any_eq_true _ _ |>.mp expired
          rw [if_pos expired]
          refine ⟨(by rintro ⟨_, _, _, same⟩; cases same), fun passing => ?_⟩
          exact absurd (of_decide_eq_true past) (not_le.mpr (passing.live time expires))
        · rw [if_neg expired, Program.alone_bind, alone_removalState]
          -- It has not expired.
          have live : ∀ time, invite.expiresAt = some time → store.now < time := by
            intro time expires
            simpa [expires] using expired
          have allows : removalNow store invite (some principal.ownerId) = .allowed
            ↔ Allows invite (some principal.ownerId) store :=
            removalNow_eq_allowed
          cases state : removalNow store invite (some principal.ownerId) with
          | unavailable =>
            refine ⟨(by rintro ⟨_, _, _, same⟩; cases same), fun passing => ?_⟩
            cases state.symm.trans (allows.mpr passing.removals)
          | revoked =>
            refine ⟨(by rintro ⟨_, _, _, same⟩; cases same), fun passing => ?_⟩
            cases state.symm.trans (allows.mpr passing.removals)
          | allowed =>
            -- Allowed: what is left is a matter of the invite itself.
            have ends : ∀ reply : EligibleInvite,
              (some (RemovalState.allowed, store)).bind (fun (_, after) =>
                (pure reply : ChannelProgram EligibleInvite).alone
                  (execShared (T := channelSetting) 0
                  (ChannelCall.readEligibleInvite inviteRef principal)) answered after)
                    = some (reply, store) := fun _ => rfl
            refine ⟨?_, fun passing => ⟨invite, version.etag, store, ?_⟩⟩
            -- It passed, so it is active and its policy admits the one who asks.
            · rintro ⟨value, revision, after, same⟩
              have reply := congrArg Prod.fst (Option.some.inj ((ends _).symm.trans same))
              simp only [eligible] at reply
              split at reply
              · cases reply
              rename_i active
              split at reply
              · cases reply
              rename_i policy
              have active : invite.status = .active := by
                cases status : invite.status with
                | active => rfl
                | revoked => exact absurd status active
              exact ⟨found, read, digest, live, allows.mp state, active, by simpa using policy⟩
            -- And an invite like that passes.
            · have reply :
                eligible runtime principal invite version.etag = .eligible invite version.etag := by
                simp [eligible, passing.active, passing.policy]
              exact (ends _).trans (by rw [reply])
      · rw [if_pos digest]
        exact ⟨(by rintro ⟨_, _, _, same⟩; cases same), fun passing => absurd passing.digest digest⟩

/-! ## What is over stays over -/

variable {ownerId : OwnerId} {roomId : RoomId} {seen : ChannelStore → Prop}

/-- Nobody passes with an invite that is over. -/
theorem Dead.stops (apart : Apart runtime)
    (kept : Kept (channelRules runtime (linking runtime ownerId roomId seen)) store)
    {generation : Nat} (dead : Dead runtime ownerId roomId store generation) :
    ¬ LetsPass runtime store (personalRef runtime ownerId roomId generation) principal := by
  intro lets
  obtain ⟨version, invite, passing⟩ := letsPass_iff.mp lets
  obtain ⟨value, ⟨earlier, inside, key, data⟩, over_⟩ := dead
  obtain ⟨member, key'⟩ := Register.mem_of_current passing.current
  -- The invite that is read is a later form of the one that was over.
  obtain ⟨⟨new, data', personal⟩, -⟩ := personal_version apart kept generation version member key'
  have read := passing.read
  rw [data'] at read
  cases personal.read.symm.trans read
  have carries := personal_since apart kept inside key data member (key'.trans key.symm) data'
    (Register.le_current passing.current inside key)
  rcases over_ with revoked | ⟨time, expires, past⟩ | ⟨entry, recorded, older⟩
  · cases passing.active.symm.trans (carries.revoked revoked)
  · exact absurd past (not_le.mpr (passing.live time (carries.expiresAt.trans expires)))
  · have worth := worth_of_allows kept passing.removals
    rw [← personal.room, ← personal.creator] at recorded
    have newer := worth.issuer entry recorded
    rw [carries.removalGeneration] at newer
    exact absurd older (Nat.not_lt.mpr newer)

/-- At most one invite of the link lets somebody pass. -/
theorem one_passes (apart : Apart runtime)
    (kept : Kept (channelRules runtime (linking runtime ownerId roomId seen)) store) {one two : Nat}
    {first second : AuthPrincipal}
    (passes : LetsPass runtime store (personalRef runtime ownerId roomId one) first)
    (passes' : LetsPass runtime store (personalRef runtime ownerId roomId two) second) :
    one = two := by
  -- The pointer has come to the later invite, so the earlier one is over.
  have left : ∀ {early late : Nat} {principal other : AuthPrincipal}, early < late →
      LetsPass runtime store (personalRef runtime ownerId roomId early) principal →
      ¬ LetsPass runtime store (personalRef runtime ownerId roomId late) other := by
    intro early late principal other less earlier later
    obtain ⟨version, invite, passing⟩ := letsPass_iff.mp later
    obtain ⟨member, key⟩ := Register.mem_of_current passing.current
    obtain ⟨-, revision, pointer, inside, named, -, pointed⟩ :=
      personal_version apart kept late version member key
    exact (pointer_left kept pointer inside named late pointed early less).stops apart kept earlier
  rcases Nat.lt_trichotomy one two with less | same | less
  · exact absurd passes' (left less passes)
  · exact same
  · exact absurd passes (left less passes')

/-! ## What is not over lets pass -/

/-- The human has never been removed from the room. -/
def NeverRemoved (store : ChannelStore) (roomId : RoomId) (principal : AuthPrincipal) : Prop :=
  ∀ entry, ¬ Recorded store roomId principal.ownerId entry

/-- Every human who has never been removed passes with the invite. -/
def Good (runtime : AdmissionRuntime) (roomId : RoomId) (store : ChannelStore) (inviteRef : Text) :
    Prop :=
  ∀ principal, NeverRemoved store roomId principal → LetsPass runtime store inviteRef principal

/-- The room has had removals that no reader accepts. -/
def Unreadable (store : ChannelStore) (roomId : RoomId) : Prop :=
  ∃ version record, RecordAt store roomId version record ∧ validRemovals record = false

/-- The invite is over, or the room's removals cannot be read. -/
def Bad (runtime : AdmissionRuntime) (ownerId : OwnerId) (roomId : RoomId) (store : ChannelStore)
    (generation : Nat) : Prop :=
  ∃ value, HasInvite runtime ownerId roomId store generation value
    ∧ (Over ownerId roomId store value ∨ Unreadable store roomId)

/-- An invite that no removal is newer than is allowed. -/
theorem removalState_eq_allowed {removals : RoomRemovals} {invite : InviteRecord}
    {owner : Option OwnerId}
    (issued : ∀ entry, removals.owners.get invite.creatorOwnerId = some entry →
      entry.generation ≤ invite.removalGeneration.getD 0)
    (aimed : ∀ target, owner = some target → removals.owners.get target = none) :
    removalState removals invite owner = .allowed := by
  have first : (removals.owners.get invite.creatorOwnerId).any
      (fun issuer => decide (invite.removalGeneration.getD 0 < issuer.generation)) = false := by
    cases found : removals.owners.get invite.creatorOwnerId with
    | none => rfl
    | some entry => exact decide_eq_false (Nat.not_lt.mpr (issued entry found))
  have second : (owner.bind fun owner => removals.owners.get owner) = none := by
    cases owner with
    | none => rfl
    | some target => exact aimed target rfl
  simp [removalState, first, second]

/-- An invite of the link lets everybody pass who has never been removed, unless it is over or
removals cannot be read. -/
theorem good_or_bad (apart : Apart runtime)
    (kept : Kept (channelRules runtime (linking runtime ownerId roomId seen)) store)
    {generation : Nat} {version : SharedVersion channelSetting} (inside : version ∈ store.versions)
    (key : version.key = .invite (personalRef runtime ownerId roomId generation)) :
    Good runtime roomId store (personalRef runtime ownerId roomId generation)
      ∨ Bad runtime ownerId roomId store generation := by
  -- The key has a version, so its current one is found.
  cases found : store.register.current (fun _ => true)
    (.invite (personalRef runtime ownerId roomId generation)) with
  | none => exact absurd key (Register.none_of_current (fun _ => rfl) found version inside)
  | some current =>
    obtain ⟨member, key'⟩ := Register.mem_of_current found
    obtain ⟨⟨value, data, personal⟩, -⟩ :=
      personal_version apart kept generation current member key'
    -- It is over or unreadable, or it passes.
    by_cases bad : Over ownerId roomId store value ∨ Unreadable store roomId
    · exact Or.inr ⟨value, ⟨current, member, key', data⟩, bad⟩
    refine Or.inl fun principal never =>
      letsPass_iff.mpr ⟨current, value, found, data ▸ personal.read, personal.digest,
        ?_, ?_, ?_, ?_⟩
    · intro time expires
      exact not_le.mp fun past => bad (Or.inl (Or.inr (Or.inl ⟨time, expires, past⟩)))
    -- No removal of the room stands against it.
    · rw [Allows, personal.room]
      cases read : store.register.current (fun _ => true) (.removals roomId) with
      | none => exact Or.inl rfl
      | some last =>
        obtain ⟨member', named⟩ := Register.mem_of_current read
        obtain ⟨record, content⟩ :=
          (records_ordered (fun _ _ (first : LinkFirst _ _) => first.1) kept roomId).record
          last member' named
        have held : RecordAt store roomId last record := ⟨member', named, content⟩
        refine Or.inr ⟨last, record, rfl, content, ?_, removalState_eq_allowed (fun entry issued =>
          ?_) fun target same => ?_⟩
        -- The record of removals reads.
        · by_contra invalid
          exact bad (Or.inr ⟨last, record, held, by simpa using invalid⟩)
        -- It was not issued before the owner's own removal.
        · rw [personal.creator] at issued
          exact Nat.not_lt.mp fun older =>
            bad (Or.inl (Or.inr (Or.inr ⟨entry, ⟨last, record, held, issued⟩, older⟩)))
        -- And the one who asks was never removed.
        · cases same
          exact Option.eq_none_iff_forall_not_mem.mpr fun entry present =>
            never entry ⟨last, record, held, present⟩
    -- It is active, and made with the policy of a personal link.
    · cases status : value.status with
      | active => rfl
      | revoked => exact absurd (Or.inl (Or.inl status)) bad
    · rw [personal.policy]
      rfl

end Khala.Channels
