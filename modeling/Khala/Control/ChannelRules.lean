import Khala.Control.Invites

/-! The rule that all writes of removals, invites and pointers follow, and each call's part in it.
-/

namespace Khala.Channels

open Js Concurrent

variable (runtime : AdmissionRuntime)

/-! ## The rule -/

/-- The removals that a write expects, if any, and that are valid. -/
def Before (store : ChannelStore) (key : ChannelKey) (expected : Option Nat) :
    Option RoomRemovals → Prop
  | none => expected = none
  | some record => validRemovals record = true
    ∧ ∃ revision, expected = some revision
    ∧ HasVersion (T := channelSetting) key revision (.removals record) store

/-- The call shares an invite under the operation. -/
def Shares (store : ChannelStore) (call : ChannelCall) (operationId : Text) (ownerId : OwnerId)
    (roomId : RoomId) (policy : StoredAdmissionPolicy) : Prop :=
  (∃ asked, call = .shareInvite ownerId operationId roomId asked
    ∧ storePolicy runtime asked = some policy) ∨
    call = .personalLink ownerId roomId ∧ policy = .link false ∧ ∃ generation revision,
      operationId = runtime.personal ownerId roomId generation
        ∧ HasVersion (T := channelSetting)
          (.pointer ownerId roomId) revision (.pointer generation) store

/-- The invite that a share stores. -/
structure NewInvite (operationId : Text) (ownerId : OwnerId) (roomId : RoomId)
    (policy : StoredAdmissionPolicy) (value : InviteRecord) : Prop where
  roomId : value.roomId = roomId
  creatorOwnerId : value.creatorOwnerId = ownerId
  inviteRefDigest : value.inviteRefDigest = runtime.inviteRefDigest (runtime.token operationId)
  removalGeneration : ∃ generation, value.removalGeneration = some generation
    ∧ isSafeInteger generation = true
  policy : value.policy = policy
  status : value.status = .active
  authorized : value.lastAuthorizedOperationDigest = none

/-- What the write of a call is, by the name of its operation. -/
def ChannelWrite (store : ChannelStore) (call : ChannelCall) (key : ChannelKey)
    (expected : Option Nat) (data : ChannelData) : ChannelOperation → Prop
  -- A removal is written over the record that was read.
  | .remove _ => ∃ roomId creatorOwnerId ownerId agents label previous,
      call = .recordRemoval roomId creatorOwnerId ownerId agents label ∧ key = .removals roomId
        ∧ Before store key expected previous
        ∧ (∀ record, previous = some record → record.creatorOwnerId = creatorOwnerId)
        ∧ data = .removals (withRemoval previous creatorOwnerId ownerId agents label)
  -- It is completed at the generation that it has.
  | .complete _ => ∃ roomId ownerId record entry,
      call = .completeRemoval roomId ownerId entry.generation ∧ key = .removals roomId
        ∧ Before store key expected (some record) ∧ record.owners.get ownerId = some entry
        ∧ data = .removals (withComplete record ownerId entry)
  | .agentRemoved _ => ∃ roomId userId removed, call = .setAgentRemoved roomId userId removed
      ∧ key = .agentRemoved roomId userId ∧ data = .agentRemoved removed
  -- A shared invite is a new one.
  | .share operationId => ∃ ownerId roomId policy value,
    Shares runtime store call operationId ownerId roomId policy
      ∧ key = .invite (runtime.token operationId) ∧ expected = none ∧ data = .invite value
      ∧ NewInvite runtime operationId ownerId roomId policy value
  -- Only the creator revokes an invite.
  | .revoke operationId => ∃ ownerId inviteRef revision old invite,
    call = .revokeInvite ownerId operationId inviteRef
      ∧ key = .invite inviteRef ∧ expected = some revision
      ∧ HasVersion (T := channelSetting) key revision old store
      ∧ readInviteRecord old = some invite ∧ invite.creatorOwnerId = ownerId
      ∧ data = .invite { invite with status := .revoked, lastAuthorizedOperationDigest := none }
  -- A pointer is the first, or one further than a pointer whose invite was read.
  | .pointer ownerId roomId generation => call = .personalLink ownerId roomId
    ∧ key = .pointer ownerId roomId
      ∧ data = .pointer generation
      ∧ (expected = none ∧ generation = 0 ∨ ∃ revision before number invite,
        expected = some revision
          ∧ HasVersion (T := channelSetting) key revision (.pointer before) store
          ∧ generation = before + 1 ∧ HasVersion (T := channelSetting)
            (.invite (runtime.token (runtime.personal ownerId roomId before))) number invite store)

/-- What is stored at first, what holds of the store whenever a call performs an operation, and what
else is asked of a write. -/
structure Regime where
  first : ChannelKey → ChannelData → Prop
  seen : ChannelStore → ChannelCall → StoreOp channelSetting → Prop
  extra : ChannelStore → ChannelCall → ChannelKey → Option Nat → ChannelOperation →
    ChannelData → Prop
  stable : ∀ {before after call key expected operation data}, Grown (fun _ _ => True) before after →
    extra before call key expected operation data → extra after call key expected operation data

/-- What was there before a write stays there. -/
theorem Before.grow {before after : ChannelStore} {key : ChannelKey} {expected : Option Nat}
    {previous : Option RoomRemovals} (grown : Grown (fun _ _ => True) before after)
    (held : Before before key expected previous) :
    Before after key expected previous := by
  cases previous with
  | none => exact held
  | some record =>
    obtain ⟨valid, revision, same, has⟩ := held
    exact ⟨valid, revision, same, has.grow grown⟩

/-- A call that may share may do so later. -/
theorem Shares.grow {before after : ChannelStore} {call : ChannelCall} {operationId : Text}
    {ownerId : OwnerId} {roomId : RoomId} {policy : StoredAdmissionPolicy}
    (grown : Grown (fun _ _ => True) before after)
    (shares : Shares runtime before call operationId ownerId roomId policy) :
    Shares runtime after call operationId ownerId roomId policy := by
  rcases shares with direct | ⟨same, default, generation, revision, named, has⟩
  · exact Or.inl direct
  · exact Or.inr ⟨same, default, generation, revision, named, has.grow grown⟩

/-- A write that may be made may be made later. -/
theorem ChannelWrite.grow {before after : ChannelStore} {call : ChannelCall} {key : ChannelKey}
    {expected : Option Nat} {data : ChannelData} {operation : ChannelOperation}
    (grown : Grown (fun _ _ => True) before after)
    (write : ChannelWrite runtime before call key expected data operation) :
    ChannelWrite runtime after call key expected data operation := by
  -- What a write rests on was read before, and versions that were read stay.
  cases operation with
  | remove random =>
    obtain ⟨roomId, creatorOwnerId, ownerId, agents, label, previous, same, key, found, rest⟩ :=
      write
    exact ⟨roomId, creatorOwnerId, ownerId, agents, label, previous, same, key,
      found.grow grown, rest⟩
  | complete random =>
    obtain ⟨roomId, ownerId, record, entry, same, key, found, rest⟩ := write
    exact ⟨roomId, ownerId, record, entry, same, key, found.grow grown, rest⟩
  | agentRemoved random => exact write
  | share operationId =>
    obtain ⟨ownerId, roomId, policy, value, shares, rest⟩ := write
    exact ⟨ownerId, roomId, policy, value, shares.grow runtime grown, rest⟩
  | revoke operationId =>
    obtain ⟨ownerId, inviteRef, revision, old, invite, same, key, expected, has, rest⟩ := write
    exact ⟨ownerId, inviteRef, revision, old, invite, same, key, expected, has.grow grown, rest⟩
  -- A pointer is the first one, or follows one that was read.
  | pointer ownerId roomId generation =>
    obtain ⟨same, key, data,
      first | ⟨revision, earlier, number, invite, expected, has, next, old⟩⟩ := write
    · exact ⟨same, key, data, Or.inl first⟩
    · exact ⟨same, key, data, Or.inr ⟨revision, earlier, number, invite, expected, has.grow grown,
        next, old.grow grown⟩⟩

def channelRules (regime : Regime) : Rules channelSetting where
  first := regime.first
  -- What a call may do is what the regime allows.
  may := fun call op store => regime.seen store call op ∧ match op with
    | .compareAndSet key expected operation data =>
      regime.extra store call key expected operation data
    | _ => True
  grows := fun _ _ => True
  refl := fun _ => trivial
  trans := fun _ _ => trivial
  answered := fun _ => trivial
  happened := fun _ => trivial
  -- A write belongs to a call and follows the rule of its operation.
  rule := fun store write => ∃ tag call, write.author.caller = some (tag, call)
    ∧ ChannelWrite runtime store call write.key write.expected write.data write.author.operation
    ∧ regime.extra store call write.key write.expected write.author.operation write.data
  stable := by
    rintro before after write grown ⟨tag, call, own, rule, extra⟩
    exact ⟨tag, call, own, rule.grow runtime grown, regime.stable grown extra⟩

/-- Nothing else is asked. -/
def freely (first : ChannelKey → ChannelData → Prop) : Regime where
  first := first
  seen := fun _ _ _ => True
  extra := fun _ _ _ _ _ _ => True
  stable := fun _ _ => trivial

/-- A store in which nothing has been stored. -/
def emptyStore (now : Int) : ChannelStore := ⟨⟨.empty, []⟩, [], [], now, ()⟩

/-- The empty store is one to begin with. -/
theorem emptyStore_original {R : Rules channelSetting} (now : Int) : Original R (emptyStore now) :=
  ⟨fun _ member => (List.not_mem_nil member).elim, rfl, fun _ member =>
    (List.not_mem_nil member).elim,
    fun _ member => (List.not_mem_nil member).elim, List.nodup_nil⟩

/-! ## Reading -/

variable {runtime : AdmissionRuntime} {regime : Regime} {tag : Nat} {call : ChannelCall}
    {known : ChannelStore → Prop}

/-- What a call does under the rule. -/
abbrev Follow (runtime : AdmissionRuntime) (regime : Regime) (tag : Nat) (call : ChannelCall)
    (known : ChannelStore → Prop) {α : Type} (program : ChannelProgram α)
    (post : α → ChannelStore → Prop) : Prop :=
  Upholds (channelRules runtime regime) tag call known program post

/-- What `readRoomRemovals` tells of the store. -/
def RemovalsTrue (roomId : RoomId) : Option (Option RoomRemovals) → ChannelStore → Prop
  | none, _ => True
  | some none, store => store.register.current (fun _ => true) (.removals roomId) = none
  | some (some removals), store => validRemovals removals = true ∧ ∃ version,
      store.register.current (fun _ => true) (.removals roomId) = some version
        ∧ version.data = .removals removals

/-- Reading a room's removals tells the record of the moment. -/
theorem readRoomRemovals_follow
    (stable : Stable (channelRules runtime regime) (some (tag, call)) known) (roomId : RoomId) :
    Follow runtime regime tag call known (readRoomRemovals roomId) fun reply store =>
      known store ∧ RemovalsTrue roomId reply store := by
  -- The removals are read, and count only where they are valid.
  refine .bind (Upholds.read stable _) fun reply => ?_
  cases reply with
  | absent => exact .done _ fun _ _ held => ⟨held.1, held.2⟩
  | unavailable => exact .done _ fun _ _ held => ⟨held.1, trivial⟩
  | record revision data =>
    cases data with
    | removals value =>
      -- They are, and tell the removals of their version.
      dsimp only
      split
      · rename_i valid
        refine .done _ fun _ _ held => ⟨held.1, valid, ?_⟩
        obtain ⟨version, found, -, content⟩ := held.2
        exact ⟨version, found, content⟩
      · exact .done _ fun _ _ held => ⟨held.1, trivial⟩
    | agentRemoved removed => exact .done _ fun _ _ held => ⟨held.1, trivial⟩
    | invite value => exact .done _ fun _ _ held => ⟨held.1, trivial⟩
    | pointer generation => exact .done _ fun _ _ held => ⟨held.1, trivial⟩
    | other => exact .done _ fun _ _ held => ⟨held.1, trivial⟩

/-- Drawing a number, which the caller may name an operation by. -/
theorem random_follow (persistent : Persistent (channelRules runtime regime) known) :
    Follow runtime regime tag call known StoreProgram.random fun number store =>
      known store ∧ (number, some (tag, call)) ∈ store.drawn :=
  (Upholds.random persistent).mono fun _ _ held => ⟨held.1, held.2.drawn⟩

/-- A number that was drawn stays drawn. -/
theorem persistent_drawn (number : Nat) :
    Persistent (channelRules runtime regime) fun store =>
      (number, some (tag, call)) ∈ store.drawn :=
  fun _ _ grown member => grown.drawn _ member

/-- What was there before a write stays there. -/
theorem persistent_before (key : ChannelKey) (expected : Option Nat)
    (previous : Option RoomRemovals) :
    Persistent (channelRules runtime regime) fun store => Before store key expected previous :=
  fun _ _ grown held => held.grow grown

/-! ## Writing -/

/-- A write that is what the call's writes are. -/
theorem write_follow (persistent : Persistent (channelRules runtime regime) known)
    {key : ChannelKey} {expected : Option Nat} {operation : ChannelOperation} {data : ChannelData}
    (writes : ∀ store, known store → ChannelWrite runtime store call key expected data operation)
    (drawn : ∀ store number, known store → operation.random = some number →
      (number, some (tag, call)) ∈ store.drawn) :
    Follow runtime regime tag call known (StoreProgram.compareAndSet (T :=
  channelSetting) key expected operation data)
      fun reply after => known after
        ∧ WriteTrue (channelRules runtime regime) call ⟨key, expected,
          ⟨operation, some (tag, call)⟩, data⟩ reply after :=
  Upholds.write persistent fun store _ held may =>
    ⟨⟨tag, call, rfl, writes store held, may.2⟩, fun number named => drawn store number held named⟩

/-- What the reply to a write tells whose outcome was looked up. -/
def ResolvedTrue (runtime : AdmissionRuntime) (regime : Regime) (call : ChannelCall)
    (write : SharedWrite channelSetting) :
    WriteReply ChannelData → ChannelStore → Prop
  | .applied revision data, store =>
    HasOperation (T := channelSetting) write.author.operation write.key revision data store
      ∧ Tried (channelRules runtime regime) call write store
  | reply, store => WriteTrue (channelRules runtime regime) call write reply store

/-- What a write's reply tells is what resolving it tells. -/
theorem resolved_of_write {write : SharedWrite channelSetting} {reply : WriteReply ChannelData}
    {store : ChannelStore} (told : WriteTrue (channelRules runtime regime) call write reply store) :
    ResolvedTrue runtime regime call write reply store := by
  cases reply with
  | applied revision data => exact ⟨told.1, told.2.2⟩
  | conflict current => exact told
  | operationMismatch => exact told
  | outcomeUnknown => exact told
  | unavailable => exact told

/-- A write that may be made is made or resolved by the rule. -/
theorem writeAndResolve_follow (persistent : Persistent (channelRules runtime regime) known)
    {key : ChannelKey} {expected : Option Nat} {operation : ChannelOperation} {data : ChannelData}
    (writes : ∀ store, known store → ChannelWrite runtime store call key expected data operation)
    (named : operation.random = none) :
    Follow runtime regime tag call known (writeAndResolve key expected operation data)
      fun reply after =>
      known after ∧ ResolvedTrue runtime regime call ⟨key, expected, ⟨operation, some (tag, call)⟩,
        data⟩ reply after := by
  have drawn : ∀ store number, known store → operation.random = some number →
    (number, some (tag, call)) ∈ store.drawn :=
    fun _ _ _ same => by cases named.symm.trans same
  refine .bind (write_follow persistent writes drawn) fun reply => ?_
  cases reply with
  | applied revision data => exact .done _ fun _ _ held => ⟨held.1, resolved_of_write held.2⟩
  | conflict current => exact .done _ fun _ _ held => ⟨held.1, resolved_of_write held.2⟩
  | operationMismatch => exact .done _ fun _ _ held => ⟨held.1, resolved_of_write held.2⟩
  | unavailable => exact .done _ fun _ _ held => ⟨held.1, resolved_of_write held.2⟩
  | outcomeUnknown =>
    -- Whatever the outcome was, the write has been tried.
    refine .bind (Upholds.resolve (persistent.and (persistent_tried call _)) key operation)
      fun reply => ?_
    cases reply with
    | applied revision data => exact .done _ fun _ _ held =>
      ⟨held.1.1, held.2 revision data rfl, held.1.2⟩
    | notApplied =>
      refine (Triple.weaken (write_follow persistent writes drawn) fun _ _ held => held.1.1).mono
        fun reply store held => ?_
      exact ⟨held.1, resolved_of_write held.2⟩
    | outcomeUnknown => exact .done _ fun _ _ held => ⟨held.1.1, held.1.2⟩
    | unavailable => exact .done _ fun _ _ held => ⟨held.1.1, held.1.2⟩

/-! ## Removals -/

section

variable {roomId : RoomId} {creatorOwnerId ownerId : OwnerId} {agents : List Text} {label : Text}

/-- Recording a removal over another follows the rule. -/
theorem recordOver_follow {retry : ChannelProgram (Option RoomRemovals)} {expected : Option Nat}
    {previous : Option RoomRemovals}
    (again : Follow runtime regime tag (.recordRemoval roomId creatorOwnerId ownerId agents label)
      (fun _ => True) retry fun _ _ => True)
    (creator : ∀ record, previous = some record → record.creatorOwnerId = creatorOwnerId) :
    Follow runtime regime tag (.recordRemoval roomId creatorOwnerId ownerId agents label)
      (fun store => Before store (.removals roomId) expected previous)
      (recordOver retry roomId creatorOwnerId ownerId agents label expected previous) fun _ _ =>
        True := by
  -- The write is made over what was read, under a number of its own.
  refine .bind (random_follow (persistent_before _ _ _)) fun random => ?_
  refine .bind (write_follow ((persistent_before _ _ _).and (persistent_drawn _))
    (fun store held => ?_)
    fun store number held same => ?_) fun reply => ?_
  · exact ⟨roomId, creatorOwnerId, ownerId, agents, label, previous, rfl, rfl, held.1, creator, rfl⟩
  · cases same
    exact held.2
  -- Only a conflict tries again.
  · cases reply with
    | conflict current => exact again.weaken fun _ _ _ => trivial
    | applied revision data => cases data <;> exact .done _ fun _ _ _ => trivial
    | operationMismatch => exact .done _ fun _ _ _ => trivial
    | outcomeUnknown => exact .done _ fun _ _ _ => trivial
    | unavailable => exact .done _ fun _ _ _ => trivial

/-- Recording a removal follows the rule, however often it is tried. -/
theorem recordRemoval_follow (attempts : Nat) :
    Follow runtime regime tag (.recordRemoval roomId creatorOwnerId ownerId agents label)
      (fun _ => True)
      (recordRemoval roomId creatorOwnerId ownerId agents label attempts) fun _ _ => True := by
  -- The induction is on the attempts.
  induction attempts with
  | zero => exact .done _ fun _ _ _ => trivial
  | succ attempts ih =>
    refine .bind (Upholds.read stable_true _) fun reply => ?_
    cases reply with
    | unavailable => exact .done _ fun _ _ _ => trivial
    | absent => exact (recordOver_follow ih fun _ same => by cases same).weaken fun _ _ _ => rfl
    | record revision data =>
      cases data with
      | removals previous =>
        dsimp only
        -- The record is of the same creator and can still grow, or nothing is written.
        split
        · exact .done _ fun _ _ _ => trivial
        · rename_i fine
          simp only [not_or, Bool.not_eq_false, ne_eq, not_not] at fine
          refine (recordOver_follow ih fun record same => ?_).weaken fun _ _ held =>
            ⟨fine.1, revision, rfl, held.2.hasVersion⟩
          cases same
          exact fine.2
      | agentRemoved removed => exact .done _ fun _ _ _ => trivial
      | invite value => exact .done _ fun _ _ _ => trivial
      | pointer generation => exact .done _ fun _ _ _ => trivial
      | other => exact .done _ fun _ _ _ => trivial

/-- Completing a removal follows the rule, however often it is tried. -/
theorem completeRemoval_follow {generation : Nat} (attempts : Nat) :
    Follow runtime regime tag (.completeRemoval roomId ownerId generation) (fun _ => True)
      (completeRemoval roomId ownerId generation attempts) fun _ _ => True := by
  -- Every way to give up says nothing.
  have ended : ∀ {known : ChannelStore → Prop} (reply : Bool),
      Follow runtime regime tag (.completeRemoval roomId ownerId generation) known (pure reply)
        fun _ _ => True :=
    fun _ => .done _ fun _ _ _ => trivial
  induction attempts with
  | zero => exact ended _
  | succ attempts ih =>
    refine .bind (Upholds.read stable_true _) fun reply => ?_
    cases reply with
    | unavailable => exact ended _
    | absent => exact ended _
    | record revision data =>
      cases data with
      | removals current =>
        -- The checks come first: valid, known, not complete, and of this generation.
        dsimp only
        split
        · exact ended _
        rename_i valid
        split
        · exact ended _
        rename_i entry found
        split
        · exact ended _
        rename_i same
        split
        · exact ended _
        simp only [ne_eq, not_not] at same
        subst same
        -- What was read is still a version of the removals when the write is made.
        refine .knowing (fun store => Before store (.removals roomId) (some revision)
          (some current))
          (fun _ _ held => ⟨by simpa using valid, revision, rfl, held.2.hasVersion⟩) ?_
        refine .bind (random_follow (persistent_before _ _ _)) fun random => ?_
        refine .bind (write_follow ((persistent_before _ _ _).and (persistent_drawn _))
          (fun store held => ?_)
          fun store number held same => ?_) fun reply => ?_
        · exact ⟨roomId, ownerId, current, entry, rfl, rfl, held.1, found, rfl⟩
        · cases same
          exact held.2
        -- Only a conflict tries again.
        · cases reply with
          | conflict current => exact ih.weaken fun _ _ _ => trivial
          | applied revision data => exact ended _
          | operationMismatch => exact ended _
          | outcomeUnknown => exact ended _
          | unavailable => exact ended _
      | agentRemoved removed => exact ended _
      | invite value => exact ended _
      | pointer generation => exact ended _
      | other => exact ended _

/-- Marking an agent over another record follows the rule. -/
theorem setOver_follow {retry : ChannelProgram Bool} {userId : Text} {removed : Bool}
    {expected : Option Nat}
    (again : Follow runtime regime tag (.setAgentRemoved roomId userId removed)
      (fun _ => True) retry fun _ _ => True) :
    Follow runtime regime tag (.setAgentRemoved roomId userId removed) known
      (setOver retry roomId userId removed expected)
      fun _ _ => True := by
  refine .knowing (fun _ => True) (fun _ _ _ => trivial) ?_
  -- The write needs nothing of what was read.
  refine .bind (random_follow persistent_true) fun random => ?_
  refine .bind (write_follow (persistent_true.and (persistent_drawn _)) (fun store held => ?_)
    fun store number held same => ?_) fun reply => ?_
  · exact ⟨roomId, userId, removed, rfl, rfl, rfl⟩
  · cases same
    exact held.2
  · cases reply with
    | conflict current => exact again.weaken fun _ _ _ => trivial
    | applied revision data => exact .done _ fun _ _ _ => trivial
    | operationMismatch => exact .done _ fun _ _ _ => trivial
    | outcomeUnknown => exact .done _ fun _ _ _ => trivial
    | unavailable => exact .done _ fun _ _ _ => trivial

/-- Marking an agent as removed follows the rule, however often it is tried. -/
theorem setAgentRemoved_follow {userId : Text} {removed : Bool} (attempts : Nat) :
    Follow runtime regime tag (.setAgentRemoved roomId userId removed) (fun _ => True)
      (setAgentRemoved roomId userId removed attempts) fun _ _ => True := by
  -- The induction is on the attempts: where nothing has to change, nothing is written.
  induction attempts with
  | zero => exact .done _ fun _ _ _ => trivial
  | succ attempts ih =>
    refine .bind (Upholds.read stable_true _) fun reply => ?_
    cases reply with
    | unavailable => exact .done _ fun _ _ _ => trivial
    | absent =>
      dsimp only
      split
      · exact .done _ fun _ _ _ => trivial
      · exact setOver_follow ih
    | record revision data =>
      dsimp only
      split
      · exact .done _ fun _ _ _ => trivial
      · exact setOver_follow ih

end

/-- The removals of the invite's room allow it. -/
def Allows (invite : InviteRecord) (ownerId : Option OwnerId) (store : ChannelStore) : Prop :=
  store.register.current (fun _ => true) (.removals invite.roomId) = none ∨
    ∃ version removals, store.register.current (fun _ => true)
      (.removals invite.roomId) = some version
      ∧ version.data = .removals removals ∧ validRemovals removals = true
      ∧ removalState removals invite ownerId = .allowed

/-- The state of removals tells whether an invite is allowed. -/
theorem inviteRemovalState_follow
    (stable : Stable (channelRules runtime regime) (some (tag, call)) known) (invite : InviteRecord)
    (ownerId : Option OwnerId) :
    Follow runtime regime tag call known (inviteRemovalState invite ownerId) fun reply store =>
      known store ∧ (reply = .allowed → Allows invite ownerId store) := by
  refine .bind (readRoomRemovals_follow stable invite.roomId) fun reply => ?_
  match reply with
  | none => exact .done _ fun _ _ held => ⟨held.1, fun same => by cases same⟩
  | some none => exact .done _ fun _ _ held => ⟨held.1, fun _ => Or.inl held.2⟩
  | some (some removals) =>
    refine .done _ fun _ _ held => ⟨held.1, fun allowed => ?_⟩
    obtain ⟨known, valid, version, found, content⟩ := held
    exact Or.inr ⟨version, removals, found, content, valid, allowed⟩

/-! ## Sharing -/

/-- The write by which a call stores a new invite. -/
abbrev shareWrite (runtime : AdmissionRuntime) (tag : Nat) (call : ChannelCall) (operationId : Text)
    (value : InviteRecord) :
    SharedWrite channelSetting :=
  ⟨.invite (runtime.token operationId), none, ⟨.share operationId, some (tag, call)⟩, .invite value⟩

/-- What an answer that a share has succeeded rests on: an invite that was there, or one that the
call wrote. -/
def Granted (runtime : AdmissionRuntime) (regime : Regime) (tag : Nat) (call : ChannelCall)
    (operationId : Text) (ownerId : OwnerId) (roomId : RoomId) (policy : StoredAdmissionPolicy)
    (expiresAt : Option Int) (store : ChannelStore) :
    Prop :=
  -- Either the invite is there and is the same share.
  (∃ revision data invite, HasVersion (T := channelSetting)
    (.invite (runtime.token operationId)) revision data store
    ∧ readInviteRecord data = some invite
    ∧ sameShare runtime invite ownerId roomId policy (runtime.token operationId) = true
    ∧ invite.expiresAt = expiresAt) ∨
  -- Or the call has made it, as it was asked to.
  ∃ value stored revision, NewInvite runtime operationId ownerId roomId policy value
    ∧ HasOperation (T := channelSetting) (.share operationId)
      (.invite (runtime.token operationId)) revision (.invite stored) store
    ∧ value.expiresAt = expiresAt
    ∧ Tried (channelRules runtime regime) call (shareWrite runtime tag call operationId value) store

/-- An invite that was granted stays so. -/
theorem persistent_granted {operationId : Text} {ownerId : OwnerId} {roomId : RoomId}
    {policy : StoredAdmissionPolicy} {expiresAt : Option Int} :
    Persistent (channelRules runtime regime)
      (Granted runtime regime tag call operationId ownerId roomId policy expiresAt) := by
  rintro before after grown (⟨revision, data, invite, has, rest⟩ | ⟨value, stored, revision, new,
    has, same, tried⟩)
  · exact Or.inl ⟨revision, data, invite, has.grow grown, rest⟩
  · exact Or.inr ⟨value, stored, revision, new, persistent_hasOperation _ _ _ _ _ _ grown has, same,
      persistent_tried _ _ _ _ grown tried⟩

/-- What an answer that the operation was used otherwise rests on. -/
def Refused (runtime : AdmissionRuntime) (regime : Regime) (tag : Nat) (call : ChannelCall)
    (operationId : Text) (ownerId : OwnerId) (roomId : RoomId) (policy : StoredAdmissionPolicy)
    (store : ChannelStore) : Prop :=
  (∃ revision data, HasVersion (T := channelSetting)
    (.invite (runtime.token operationId)) revision data store
    ∧ ∀ invite, readInviteRecord data = some invite →
      sameShare runtime invite ownerId roomId policy (runtime.token operationId) = false) ∨
  ∃ value, NewInvite runtime operationId ownerId roomId policy value
    ∧ Blocked (channelRules runtime regime) call
      (shareWrite runtime tag call operationId value) store

/-- What the answer to a share tells. -/
def ShareTrue (runtime : AdmissionRuntime) (regime : Regime) (tag : Nat) (call : ChannelCall)
    (operationId : Text) (ownerId : OwnerId) (roomId : RoomId) (policy : StoredAdmissionPolicy) :
    OperationResult ShareGrant → ChannelStore → Prop
  | .ok shared, store => shared = grant runtime (runtime.token operationId) shared.expiresAt
      ∧ Granted runtime regime tag call operationId ownerId roomId policy shared.expiresAt store
  | .rejected .operationMismatch, store =>
    Refused runtime regime tag call operationId ownerId roomId policy store
  | _, _ => True

/-- A result that neither grants nor names another use of the operation. -/
def Neutral (reply : OperationResult ShareGrant) : Prop :=
  (∀ shared, reply ≠ .ok shared) ∧ reply ≠ .rejected .operationMismatch

/-- The clock tells whether an invite has expired. -/
theorem hasExpired_follow (stable : Stable (channelRules runtime regime) (some (tag, call)) known)
    (expiresAt : Option Int) :
    Follow runtime regime tag call known (hasExpired expiresAt) fun expired store => known store
      ∧ (expired = false → ∀ time, expiresAt = some time → store.now < time)
      ∧ (expired = true → ∃ time, expiresAt = some time ∧ time ≤ store.now) := by
  cases expiresAt with
  | none => exact .done _ fun _ _ held =>
    ⟨held, (fun _ _ same => by cases same), fun same => by cases same⟩
  | some time =>
    refine .bind (Upholds.clock stable) fun now => .done _ fun store _ held =>
      ⟨held.1, fun early => ?_, fun late => ?_⟩
    · rintro _ ⟨⟩
      rw [held.2]
      exact not_le.mp (of_decide_eq_false early)
    · exact ⟨time, rfl, held.2 ▸ of_decide_eq_true late⟩

/-- A decoded invite differs from the stored one in its generation at most. -/
theorem readInviteRecord_eq {data : ChannelData} {invite : InviteRecord}
    (read : readInviteRecord data = some invite) :
    ∃ stored, data = .invite stored
      ∧ invite = { stored with
        removalGeneration := stored.removalGeneration.filter isSafeInteger } := by
  cases data with
  | invite stored =>
    simp only [readInviteRecord, Option.ite_none_right_eq_some, Option.some.injEq] at read
    exact ⟨stored, rfl, read.2.symm⟩
  | removals value => cases read
  | agentRemoved removed => cases read
  | pointer generation => cases read
  | other => cases read

section

variable {operationId : Text} {ownerId : OwnerId} {roomId : RoomId} {policy : StoredAdmissionPolicy}

/-- Storing an invite follows the rule. -/
theorem storeInvite_follow (persistent : Persistent (channelRules runtime regime) known)
    (shares : ∀ store, known store → Shares runtime store call operationId ownerId roomId policy)
    {value : InviteRecord} (new : NewInvite runtime operationId ownerId roomId policy value) :
    Follow runtime regime tag call known
      (storeInvite runtime ownerId operationId roomId policy value)
      (fun reply store => known store
        ∧ ShareTrue runtime regime tag call operationId ownerId roomId policy reply store) := by
  -- The write makes a new invite of the operation.
  have writes : ∀ store, known store →
    ChannelWrite runtime store call (.invite (runtime.token operationId)) none (.invite value)
      (.share operationId) :=
    fun store held => ⟨ownerId, roomId, policy, value, shares store held, rfl, rfl, rfl, new⟩
  refine .bind (writeAndResolve_follow persistent writes rfl) fun reply => ?_
  cases reply with
  | unavailable => exact .done _ fun _ _ held => ⟨held.1, trivial⟩
  | outcomeUnknown => exact .done _ fun _ _ held => ⟨held.1, trivial⟩
  | operationMismatch => exact .done _ fun _ _ held => ⟨held.1, Or.inr ⟨value, new, held.2⟩⟩
  -- Somebody has written the invite before.
  | conflict current =>
    cases current with
    | none => exact .done _ fun _ _ held => absurd rfl (held.2.2.1 rfl)
    | some pair =>
      obtain ⟨revision, current⟩ := pair
      dsimp only
      cases read : readInviteRecord current with
      | none =>
        refine .done _ fun _ _ held =>
          ⟨held.1, Or.inl ⟨revision, current, held.2.1 _ _ rfl, fun invite same => ?_⟩⟩
        cases read.symm.trans same
      | some invite =>
        dsimp only
        split
        -- It is the same share, which is granted.
        · rename_i same
          exact .done _ fun _ _ held =>
            ⟨held.1, rfl, Or.inl ⟨revision, current, invite, held.2.1 _ _ rfl, read, same, rfl⟩⟩
        · rename_i differs
          refine .done _ fun _ _ held =>
            ⟨held.1, Or.inl ⟨revision, current, held.2.1 _ _ rfl, fun other same => ?_⟩⟩
          cases read.symm.trans same
          simpa using differs
  | applied revision stored =>
    -- What is there is the operation's own, also when an earlier call has written it.
    cases stored with
    | invite stored =>
      dsimp only
      split
      · exact .done _ fun _ _ held =>
          ⟨held.1, rfl, Or.inr ⟨value, stored, revision, new, held.2.1, rfl, held.2.2⟩⟩
      · rename_i differs
        refine .done _ fun _ _ held =>
          ⟨held.1, Or.inl ⟨revision, _, held.2.1.hasVersion, fun invite same => ?_⟩⟩
        obtain ⟨_, is, rfl⟩ := readInviteRecord_eq same
        cases is
        simpa [sameShare] using differs
    -- What is no invite cannot be the same share.
    | removals value => exact .done _ fun _ _ held =>
      ⟨held.1, Or.inl ⟨revision, _, held.2.1.hasVersion, fun _ same => by cases same⟩⟩
    | agentRemoved removed =>
      exact .done _ fun _ _ held =>
        ⟨held.1, Or.inl ⟨revision, _, held.2.1.hasVersion, fun _ same => by cases same⟩⟩
    | pointer generation =>
      exact .done _ fun _ _ held =>
        ⟨held.1, Or.inl ⟨revision, _, held.2.1.hasVersion, fun _ same => by cases same⟩⟩
    | other => exact .done _ fun _ _ held =>
      ⟨held.1, Or.inl ⟨revision, _, held.2.1.hasVersion, fun _ same => by cases same⟩⟩

/-- Computing an expiry follows the rule. -/
theorem expiry_follow (persistent : Persistent (channelRules runtime regime) known) :
    Follow runtime regime tag call known (expiry runtime) fun _ store => known store := by
  unfold expiry
  split
  · exact .done _ fun _ _ held => held
  · exact .bind (Upholds.clock persistent.stable) fun _ => .done _ fun _ _ held => held.1

/-- Sharing a new invite follows the rule. -/
theorem shareNew_follow (persistent : Persistent (channelRules runtime regime) known)
    (shares : ∀ store, known store → Shares runtime store call operationId ownerId roomId policy) :
    Follow runtime regime tag call known (shareNew runtime ownerId operationId roomId policy)
      (fun reply store => known store
        ∧ ShareTrue runtime regime tag call operationId ownerId roomId policy reply store) := by
  refine .bind (readRoomRemovals_follow persistent.stable roomId) fun reply => ?_
  cases reply with
  | none => exact .done _ fun _ _ held => ⟨held.1, trivial⟩
  | some removals =>
    dsimp only
    split
    · exact .done _ fun _ _ held => ⟨held.1, trivial⟩
    -- The generation of the room was read from a valid record.
    refine .of_fact (p := isSafeInteger ((removals.map (·.generation)).getD 0) = true)
      (fun store _ held => ?_) fun safe => ?_
    · cases removals with
      | none => rfl
      | some removals =>
        have valid := held.2.1
        simp only [validRemovals, Bool.and_eq_true] at valid
        exact valid.1.1.2
    refine .bind ((expiry_follow persistent).weaken fun _ _ held => held.1) fun expiresAt => ?_
    cases expiresAt with
    | none => exact .done _ fun _ _ held => ⟨held, trivial⟩
    | some expiresAt =>
      exact storeInvite_follow persistent shares ⟨rfl, rfl, rfl, ⟨_, rfl, safe⟩, rfl, rfl, rfl⟩

/-- Sharing, once it is allowed, follows the rule. -/
theorem shareAllowed_follow (persistent : Persistent (channelRules runtime regime) known)
    (shares : ∀ store, known store → Shares runtime store call operationId ownerId roomId policy) :
    Follow runtime regime tag call known (shareAllowed runtime ownerId operationId roomId policy)
      (fun reply store => known store
        ∧ ShareTrue runtime regime tag call operationId ownerId roomId policy reply store) := by
  -- The invite may be there already, from this operation or another.
  refine .bind (Upholds.read persistent.stable _) fun reply => ?_
  cases reply with
  | unavailable => exact .done _ fun _ _ held => ⟨held.1, trivial⟩
  | absent => exact (shareNew_follow persistent shares).weaken fun _ _ held => held.1
  | record revision existing =>
    dsimp only
    cases read : readInviteRecord existing with
    | none => exact .done _ fun _ _ held => ⟨held.1, trivial⟩
    | some invite =>
      dsimp only
      split
      -- It is the one asked for, so it is the answer.
      · rename_i same
        exact .done _ fun _ _ held =>
          ⟨held.1, rfl, Or.inl ⟨revision, existing, invite, held.2.hasVersion, read, same, rfl⟩⟩
      -- It is another one, which speaks against the operation.
      · rename_i differs
        refine .done _ fun _ _ held =>
          ⟨held.1, Or.inl ⟨revision, existing, held.2.hasVersion, fun other same => ?_⟩⟩
        cases read.symm.trans same
        simpa using differs

/-- Sharing follows the rule. -/
theorem shareInvite_follow (persistent : Persistent (channelRules runtime regime) known)
    {asked : Option AdmissionPolicy}
    (shares : ∀ store policy, known store → storePolicy runtime asked = some policy →
      Shares runtime store call operationId ownerId roomId policy) :
    Follow runtime regime tag call known (shareInvite runtime ownerId operationId roomId asked)
      fun reply store =>
      known store ∧ (Neutral reply ∨ ∃ policy, storePolicy runtime asked = some policy
        ∧ ShareTrue runtime regime tag call operationId ownerId roomId policy reply store) := by
  -- An answer that tells nothing needs nothing.
  have neutral : ∀ {known : ChannelStore → Prop} (reply : OperationResult ShareGrant),
    Neutral reply →
      Follow runtime regime tag call known (pure reply) fun reply store =>
        known store ∧ Neutral reply :=
    fun _ is => .done _ fun _ _ held => ⟨held, is⟩
  have rejected : ∀ code, code ≠ AdmissionRejection.operationMismatch → Neutral (.rejected code) :=
    fun code differs => ⟨(fun _ same => by cases same), fun same => differs (by cases same; rfl)⟩
  have unavailable : Neutral .unavailable :=
    ⟨(fun _ same => by cases same), fun same => by cases same⟩
  -- First who asks, then which policy, and then whether the room allows it.
  refine .bind ((Upholds.ask persistent _).mono fun _ _ held => held.1) fun identity => ?_
  cases identity with
  | signedOut => exact (neutral _ (rejected .authRequired (by decide))).mono fun _ _ held =>
    ⟨held.1, Or.inl held.2⟩
  | unavailable => exact (neutral _ unavailable).mono fun _ _ held => ⟨held.1, Or.inl held.2⟩
  | signedIn =>
    dsimp only
    cases stored : storePolicy runtime asked with
    | none => exact (neutral _ (rejected .forbidden (by decide))).mono fun _ _ held =>
      ⟨held.1, Or.inl held.2⟩
    | some policy =>
      dsimp only
      refine .bind ((Upholds.ask persistent _).mono fun _ _ held => held.1) fun authority => ?_
      cases authority with
      | forbidden => exact (neutral _ (rejected .forbidden (by decide))).mono fun _ _ held =>
        ⟨held.1, Or.inl held.2⟩
      | unavailable => exact (neutral _ unavailable).mono fun _ _ held => ⟨held.1, Or.inl held.2⟩
      -- All of that is settled, and the rest is the sharing itself.
      | allowed =>
        exact (shareAllowed_follow persistent fun store held =>
          shares store policy held stored).mono fun _ _ held =>
          ⟨held.1, Or.inr ⟨policy, rfl, held.2⟩⟩

end

/-! ## Personal links -/

/-- The call has read the removals of the room, and at a later moment an invite that is as new,
active and not over. -/
def SeenCurrent (runtime : AdmissionRuntime) (regime : Regime) (known : ChannelStore → Prop)
    (ownerId : OwnerId) (roomId : RoomId) (inviteRef : Text) : Prop :=
  ∃ moment removals revision data invite, Kept (channelRules runtime regime) moment
    ∧ regime.seen moment (.personalLink ownerId roomId) (.read (.invite inviteRef))
    ∧ Once (channelRules runtime regime)
      (fun store => known store ∧ RemovalsTrue roomId (some removals) store) moment
    ∧ ReadTrue (T := channelSetting) (.invite inviteRef) (.record revision data) moment
    ∧ readInviteRecord data = some invite
    ∧ invite.creatorOwnerId = ownerId ∧ invite.roomId = roomId
    ∧ (removals.map (·.generation)).getD 0 ≤ invite.removalGeneration.getD 0
    ∧ invite.status = .active
    ∧ ∀ time, invite.expiresAt = some time → moment.now < time

/-- The write by which a call moves a pointer. -/
abbrev pointerWrite (tag : Nat) (call : ChannelCall) (ownerId : OwnerId) (roomId : RoomId)
    (expected : Option Nat) (generation : Nat) : SharedWrite channelSetting :=
  ⟨.pointer ownerId roomId, expected, ⟨.pointer ownerId roomId generation, some (tag, call)⟩,
    .pointer generation⟩

/-- What the answer to a request for a personal link tells. -/
def PersonalTrue (runtime : AdmissionRuntime) (regime : Regime) (known : ChannelStore → Prop)
    (tag : Nat) (call : ChannelCall) (ownerId : OwnerId) (roomId : RoomId) :
    OperationResult ShareGrant → ChannelStore → Prop
  -- The link is that of some generation, and has been granted.
  | .ok shared, store => ∃ generation,
      shared = grant runtime (runtime.token (runtime.personal ownerId roomId generation))
        shared.expiresAt
      ∧ Granted runtime regime tag call (runtime.personal ownerId roomId generation) ownerId roomId
        (.link false) shared.expiresAt
        store
      ∧ SeenCurrent runtime regime known ownerId roomId shared.inviteRef
  -- A mismatch comes from the share or from the pointer.
  | .rejected .operationMismatch, store => (∃ generation,
      Refused runtime regime tag call (runtime.personal ownerId roomId generation) ownerId roomId
        (.link false) store) ∨
      ∃ expected generation,
        Blocked (channelRules runtime regime) call
          (pointerWrite tag call ownerId roomId expected generation) store
  -- Other answers say nothing.
  | _, _ => True

/-- An invite is stale when it is older than the room's removals, revoked or expired. -/
theorem isStale_follow (persistent : Persistent (channelRules runtime regime) known)
    (roomGeneration : Nat) (invite : InviteRecord) :
    Follow runtime regime tag call known (isStale roomGeneration invite) fun stale store =>
      known store
      ∧ (stale = false → roomGeneration ≤ invite.removalGeneration.getD 0 ∧ invite.status = .active
        ∧ ∀ time, invite.expiresAt = some time → store.now < time) := by
  unfold isStale
  split
  · exact .done _ fun _ _ held => ⟨held, fun same => by cases same⟩
  · rename_i current
    rw [not_or, not_lt] at current
    have active : invite.status = .active := by
      cases status : invite.status with
      | active => rfl
      | revoked => exact absurd status current.2
    exact (hasExpired_follow persistent.stable invite.expiresAt).mono fun _ _ held =>
      ⟨held.1, fun fresh => ⟨current.1, active, held.2.1 fresh⟩⟩

section

variable {ownerId : OwnerId} {roomId : RoomId} {removals : Option RoomRemovals}

/-- What a request for a personal link knows once it has read the removals. -/
def LookedAt (runtime : AdmissionRuntime) (regime : Regime) (known : ChannelStore → Prop)
    (roomId : RoomId) (removals : Option RoomRemovals) : ChannelStore → Prop :=
  Once (channelRules runtime regime) fun store =>
    known store ∧ RemovalsTrue roomId (some removals) store

/-- Moving the pointer follows the rule. -/
theorem movePointer_follow {retry : ChannelProgram (OperationResult ShareGrant)}
    {expected : Option Nat} {generation : Nat} {fact : ChannelStore → Prop}
    (persistent : Persistent (channelRules runtime regime) fact)
    (again : Follow runtime regime tag (.personalLink ownerId roomId) fact retry
      (PersonalTrue runtime regime known tag (.personalLink ownerId roomId) ownerId roomId))
    (writes : ∀ store, fact store → ChannelWrite runtime store (.personalLink ownerId roomId)
      (.pointer ownerId roomId) expected (.pointer generation)
      (.pointer ownerId roomId generation)) :
    Follow runtime regime tag (.personalLink ownerId roomId) fact
      (movePointer retry ownerId roomId expected generation)
      (PersonalTrue runtime regime known tag (.personalLink ownerId roomId) ownerId roomId) := by
  refine .bind (writeAndResolve_follow persistent writes rfl) fun reply => ?_
  cases reply with
  | unavailable => exact .done _ fun _ _ _ => trivial
  | outcomeUnknown => exact .done _ fun _ _ _ => trivial
  | operationMismatch => exact .done _ fun _ _ held => Or.inr ⟨expected, generation, held.2⟩
  | applied revision data => exact again.weaken fun _ _ held => held.1
  | conflict current => exact again.weaken fun _ _ held => held.1

/-- Sharing the invite of a pointer follows the rule. -/
theorem sharePersonal_follow {retry : ChannelProgram (OperationResult ShareGrant)}
    {generation revision : Nat}
    (again : Follow runtime regime tag (.personalLink ownerId roomId)
      (LookedAt runtime regime known roomId removals) retry
      (PersonalTrue runtime regime known tag (.personalLink ownerId roomId) ownerId roomId)) :
    Follow runtime regime tag (.personalLink ownerId roomId)
      (fun store => LookedAt runtime regime known roomId removals store
        ∧ HasVersion (T := channelSetting)
          (.pointer ownerId roomId) revision (.pointer generation) store)
      (sharePersonal runtime retry ownerId roomId ((removals.map (·.generation)).getD 0) generation)
      (PersonalTrue runtime regime known tag (.personalLink ownerId roomId) ownerId roomId) := by
  have lasting : Persistent (channelRules runtime regime)
    (LookedAt runtime regime known roomId removals) := persistent_once _
  refine .bind (shareInvite_follow (lasting.and (persistent_hasVersion _ _ _))
    fun store policy held same => ?_) fun reply => ?_
  · cases same
    exact Or.inr ⟨rfl, rfl, generation, revision, rfl, held.2⟩
  cases reply with
  | unavailable => exact .done _ fun _ _ _ => trivial
  | outcomeUnknown operation => exact .done _ fun _ _ _ => trivial
  | threw => exact .done _ fun _ _ _ => trivial
  -- Only a mismatch of operations says something.
  | rejected code =>
    refine .done _ fun store _ held => ?_
    rcases held.2 with neutral | ⟨policy, same, told⟩
    · cases code with
      | operationMismatch => exact absurd rfl neutral.2
      | authRequired => trivial
      | forbidden => trivial
      | identityMismatch => trivial
      | revoked => trivial
      | expired => trivial
    · cases same
      cases code with
      | operationMismatch => exact Or.inl ⟨generation, told⟩
      | authRequired => trivial
      | forbidden => trivial
      | identityMismatch => trivial
      | revoked => trivial
      | expired => trivial
  | ok shared =>
    -- From here on it is known what the share rests on.
    refine .knowing (fun store => LookedAt runtime regime known roomId removals store ∧
      Granted runtime regime tag (.personalLink ownerId roomId)
        (runtime.personal ownerId roomId generation) ownerId roomId
        (.link false) shared.expiresAt store ∧
      shared = grant runtime (runtime.token (runtime.personal ownerId roomId generation))
        shared.expiresAt)
      (fun store kept held => ?_) ?_
    · rcases held.2 with neutral | ⟨policy, same, told⟩
      · exact absurd rfl (neutral.1 shared)
      · cases same
        exact ⟨held.1.1, told.2, told.1⟩
    have granted : Persistent (channelRules runtime regime)
      (Granted runtime regime tag (.personalLink ownerId roomId)
        (runtime.personal ownerId roomId generation) ownerId roomId
          (.link false) shared.expiresAt) := persistent_granted
    have lasting := lasting.and (granted.and (persistent_const
        (shared = grant runtime (runtime.token (runtime.personal ownerId roomId generation))
          shared.expiresAt)))
    -- The invite is read once more.
    refine .bind (Upholds.readNow lasting.stable _) fun reply => ?_
    cases reply with
    | absent => exact .done _ fun _ _ _ => trivial
    | unavailable => exact .done _ fun _ _ _ => trivial
    | record revision data =>
      dsimp only
      cases read : readInviteRecord data with
      | none => exact .done _ fun _ _ _ => trivial
      | some invite =>
        dsimp only
        split
        · exact .done _ fun _ _ _ => trivial
        rename_i same
        simp only [ne_eq, not_or, not_not] at same
        -- The moment of this read is the one at which the invite is seen.
        refine .knowing (fun store => (LookedAt runtime regime known roomId removals store ∧
          Granted runtime regime tag (.personalLink ownerId roomId)
            (runtime.personal ownerId roomId generation) ownerId roomId
            (.link false) shared.expiresAt store ∧
          shared = grant runtime (runtime.token (runtime.personal ownerId roomId generation))
            shared.expiresAt) ∧
          Once (channelRules runtime regime)
            (fun store => LookedAt runtime regime known roomId removals store
            ∧ regime.seen store (.personalLink ownerId roomId) (.read (.invite shared.inviteRef))
            ∧ ReadTrue (T := channelSetting) (.invite shared.inviteRef)
            (.record revision data) store) store)
          (fun store kept held =>
            ⟨held.1, store, kept, .refl _ store, held.1.1, held.2.1.1, held.2.2⟩) ?_
        -- A link that has become stale is asked for again.
        refine .bind (isStale_follow (lasting.and (persistent_once _)) _ invite) fun stale => ?_
        cases stale with
        | true => exact again.weaken fun _ _ held => held.1.1.1
        | false =>
          refine .done _ fun store _ held => ?_
          obtain ⟨⟨⟨-, granted, shape⟩, moment, kept, grown, looked, seen, told⟩, fresh⟩ := held
          obtain ⟨newer, active, live⟩ := fresh rfl
          exact ⟨generation, shape, granted, moment, removals, revision, data, invite, kept, seen,
            looked, told, read, same.1,
            same.2, newer, active, fun time expires => grown.clock.trans_lt (live time expires)⟩

/-- Following the pointer follows the rule. -/
theorem followPointer_follow {retry : ChannelProgram (OperationResult ShareGrant)}
    {generation revision : Nat}
    (again : Follow runtime regime tag (.personalLink ownerId roomId)
      (LookedAt runtime regime known roomId removals) retry
      (PersonalTrue runtime regime known tag (.personalLink ownerId roomId) ownerId roomId)) :
    Follow runtime regime tag (.personalLink ownerId roomId)
      (fun store => LookedAt runtime regime known roomId removals store
        ∧ HasVersion (T := channelSetting)
          (.pointer ownerId roomId) revision (.pointer generation) store)
      (followPointer runtime retry ownerId roomId ((removals.map (·.generation)).getD 0)
        revision generation)
      (PersonalTrue runtime regime known tag (.personalLink ownerId roomId) ownerId roomId) := by
  -- What was looked at stays known while the pointer is followed.
  have lasting : Persistent (channelRules runtime regime)
    (LookedAt runtime regime known roomId removals) := persistent_once _
  have pointed :=
    lasting.and (persistent_hasVersion (R := channelRules runtime regime)
      (.pointer ownerId roomId) revision
    (.pointer generation))
  refine .bind (Upholds.read pointed.stable _) fun reply => ?_
  cases reply with
  | unavailable => exact .done _ fun _ _ _ => trivial
  | absent => exact (sharePersonal_follow again).weaken fun _ _ held => held.1
  | record number existing =>
    -- The invite that it points to is missing, unreadable, stale or good.
    dsimp only
    cases read : readInviteRecord existing with
    | none => exact .done _ fun _ _ _ => trivial
    | some invite =>
      dsimp only
      split
      · exact .done _ fun _ _ _ => trivial
      obtain ⟨stored, rfl, -⟩ := readInviteRecord_eq read
      -- What it is stays known, while its age is asked for.
      refine .knowing (fun store => (LookedAt runtime regime known roomId removals store
        ∧ HasVersion (T := channelSetting)
          (.pointer ownerId roomId) revision (.pointer generation) store)
        ∧ HasVersion (T := channelSetting)
          (.invite (runtime.token (runtime.personal ownerId roomId generation))) number
          (.invite stored) store) (fun store _ held => ⟨held.1, held.2.hasVersion⟩) ?_
      have both := pointed.and (persistent_hasVersion (R := channelRules runtime regime)
        (.invite (runtime.token (runtime.personal ownerId roomId generation))) number
          (.invite stored))
      refine .bind (isStale_follow both _ invite) fun stale => ?_
      cases stale with
      | false => exact (sharePersonal_follow again).weaken fun _ _ held => held.1.1
      -- It is stale: the pointer moves on from it, or the call gives up.
      | true =>
        refine .knowing _ (fun store _ held => held.1) ?_
        simp only [↓reduceIte]
        split
        · refine movePointer_follow both (again.weaken fun _ _ held => held.1.1) fun store held =>
            ?_
          exact ⟨rfl, rfl, rfl,
            Or.inr ⟨revision, generation, number, .invite stored, rfl, held.1.2, rfl, held.2⟩⟩
        · exact .done _ fun _ _ _ => trivial

/-- An attempt at a personal link follows the rule, however often it is tried. -/
theorem personalAttempt_follow (attempts : Nat) :
    Follow runtime regime tag (.personalLink ownerId roomId)
      (LookedAt runtime regime known roomId removals)
      (personalAttempt runtime ownerId roomId ((removals.map (·.generation)).getD 0) attempts)
      (PersonalTrue runtime regime known tag (.personalLink ownerId roomId) ownerId roomId) := by
  have lasting : Persistent (channelRules runtime regime)
    (LookedAt runtime regime known roomId removals) := persistent_once _
  -- The induction is on the attempts, each of which looks at the pointer again.
  induction attempts with
  | zero => exact .done _ fun _ _ _ => trivial
  | succ attempts ih =>
    refine .bind (Upholds.read lasting.stable _) fun reply => ?_
    cases reply with
    | unavailable => exact .done _ fun _ _ _ => trivial
    | absent =>
      exact (movePointer_follow lasting ih fun _ _ => ⟨rfl, rfl, rfl, Or.inl ⟨rfl, rfl⟩⟩).weaken
        fun _ _ held => held.1
    | record revision value =>
      dsimp only
      cases read : readPointer value with
      | none => exact .done _ fun _ _ _ => trivial
      | some generation =>
        -- A pointer that reads is a pointer.
        have pointed : value = .pointer generation := by
          cases value with
          | pointer stored =>
            simp only [readPointer, Option.ite_none_right_eq_some, Option.some.injEq]
            at read; rw [read.2]
          | removals value => cases read
          | agentRemoved removed => cases read
          | invite value => cases read
          | other => cases read
        subst pointed
        exact (followPointer_follow ih).weaken fun _ _ held => ⟨held.1, held.2.hasVersion⟩

end

/-- A personal link follows the rule. -/
theorem personalLink_follow (persistent : Persistent (channelRules runtime regime) known)
    {ownerId : OwnerId} {roomId : RoomId} :
    Follow runtime regime tag (.personalLink ownerId roomId) known
      (personalLink runtime ownerId roomId)
      (PersonalTrue runtime regime known tag (.personalLink ownerId roomId) ownerId roomId) := by
  refine .bind ((Upholds.ask persistent _).mono fun _ _ held => held.1) fun identity => ?_
  cases identity with
  | signedOut => exact .done _ fun _ _ _ => trivial
  | unavailable => exact .done _ fun _ _ _ => trivial
  | signedIn =>
    refine .bind (readRoomRemovals_follow persistent.stable roomId) fun removals => ?_
    cases removals with
    | none => exact .done _ fun _ _ _ => trivial
    | some removals => exact (personalAttempt_follow 8).weaken fun store kept held =>
      ⟨store, kept, .refl _ store, held⟩

/-! ## Revoking and reading -/

section

variable {ownerId : OwnerId} {operationId inviteRef : Text}

/-- An attempt to revoke follows the rule, however often it is tried. -/
theorem revokeAttempt_follow (attempts : Nat) :
    Follow runtime regime tag (.revokeInvite ownerId operationId inviteRef) (fun _ => True)
      (revokeAttempt runtime ownerId operationId inviteRef attempts) fun _ _ => True := by
  -- Every way to give up says nothing.
  have ended : ∀ {known : ChannelStore → Prop} (reply : OperationResult Unit),
      Follow runtime regime tag (.revokeInvite ownerId operationId inviteRef) known (pure reply)
        fun _ _ => True :=
    fun _ => .done _ fun _ _ _ => trivial
  induction attempts with
  | zero => exact ended _
  | succ attempts ih =>
    refine .bind (Upholds.read stable_true _) fun reply => ?_
    cases reply with
    | unavailable => exact ended _
    | absent => exact ended _
    | record revision value =>
      -- The invite has to be there, to be the owner's, and to be active.
      dsimp only
      cases read : readInviteRecord value with
      | none => exact ended _
      | some invite =>
        dsimp only
        split
        · exact ended _
        split
        · exact ended _
        rename_i own
        -- What was read of it stays a version.
        refine .knowing (fun store =>
          HasVersion (T := channelSetting) (.invite inviteRef) revision value store)
          (fun _ _ held => held.2.hasVersion) ?_
        refine .bind (hasExpired_follow (persistent_hasVersion _ _ _).stable invite.expiresAt)
          fun expired => ?_
        cases expired with
        | true => exact ended _
        | false =>
          simp only [Bool.false_eq_true, ↓reduceIte]
          -- It can be revoked: the write is made over what was read.
          split
          · exact ended _
          refine .bind
            ((writeAndResolve_follow (persistent_hasVersion (T := channelSetting)
              (.invite inviteRef) revision value)
            (fun store held => ?_) rfl).weaken fun _ _ held => held.1) fun reply => ?_
          · exact ⟨ownerId, inviteRef, revision, value, invite, rfl, rfl, rfl, held, read,
              not_not.mp own, rfl⟩
          cases reply with
          | applied revision data => exact ended _
          | operationMismatch => exact ended _
          | unavailable => exact ended _
          | outcomeUnknown => exact ended _
          | conflict current => exact ih.weaken fun _ _ _ => trivial

/-- Revoking follows the rule. -/
theorem revokeInvite_follow :
    Follow runtime regime tag (.revokeInvite ownerId operationId inviteRef) (fun _ => True)
      (revokeInvite runtime ownerId operationId inviteRef) fun _ _ => True := by
  refine .bind ((Upholds.ask persistent_true _).mono fun _ _ _ => trivial) fun identity => ?_
  cases identity with
  | signedOut => exact .done _ fun _ _ _ => trivial
  | unavailable => exact .done _ fun _ _ _ => trivial
  | signedIn => exact revokeAttempt_follow 3

/-- What an answer that an invite is eligible tells, at the moment the removals were read. -/
def EligibleTrue (principal : AuthPrincipal) : EligibleInvite → ChannelStore → Prop
  | .eligible invite _, store => Allows invite (some principal.ownerId) store
  | .failure _, _ => True

/-- Reading an eligible invite follows the rule. -/
theorem readEligibleInvite_follow (principal : AuthPrincipal) :
    Follow runtime regime tag call (fun _ => True) (readEligibleInvite runtime inviteRef principal)
      (EligibleTrue principal) := by
  -- Digest, expiry and removals are checked in this order.
  refine .bind (Upholds.read stable_true _) fun reply => ?_
  cases reply with
  | unavailable => exact .done _ fun _ _ _ => trivial
  | absent => exact .done _ fun _ _ _ => trivial
  | record revision value =>
    dsimp only
    cases read : readInviteRecord value with
    | none => exact .done _ fun _ _ _ => trivial
    | some invite =>
      dsimp only
      split
      · exact .done _ fun _ _ _ => trivial
      refine .knowing (fun _ => True) (fun _ _ _ => trivial) ?_
      refine .bind (hasExpired_follow stable_true invite.expiresAt) fun expired => ?_
      cases expired with
      | true => exact .done _ fun _ _ _ => trivial
      | false =>
        refine .knowing (fun _ => True) (fun _ _ _ => trivial) ?_
        refine .bind (inviteRemovalState_follow stable_true invite _) fun state => ?_
        cases state with
        | unavailable => exact .done _ fun _ _ _ => trivial
        | revoked => exact .done _ fun _ _ _ => trivial
        -- Allowed: what is left depends on the invite alone.
        | allowed =>
          refine .done _ fun _ _ held => ?_
          simp only [eligible]
          split
          · trivial
          split
          · trivial
          · exact held.2 rfl

end

/-! ## Calls -/

/-- What the answer to a call tells. -/
def ChannelTrue (runtime : AdmissionRuntime) (regime : Regime) (tag : Nat) :
    (call : ChannelCall) → call.Reply →
    ChannelStore → Prop
  | .inviteRemovalState invite ownerId, reply => fun store => reply = .allowed →
  Allows invite ownerId store
  | .readEligibleInvite _ principal, reply => EligibleTrue principal reply
  | .shareInvite ownerId operationId roomId asked, reply => fun store => Neutral reply ∨ ∃ policy,
      storePolicy runtime asked = some policy
        ∧ ShareTrue runtime regime tag (.shareInvite ownerId operationId roomId asked)
        operationId ownerId roomId policy reply store
  | .personalLink ownerId roomId, reply =>
    PersonalTrue runtime regime (fun _ =>
      True) tag (.personalLink ownerId roomId) ownerId roomId reply
  -- What the other calls answer says nothing of invites.
  | _, _ => fun _ => True

/-- Every call follows the rule and answers what is true. -/
theorem channel_follow (tag : Nat) (call : ChannelCall) :
    Follow runtime regime tag call (fun _ => True) (call.body runtime)
      (ChannelTrue runtime regime tag call) := by
  cases call with
  | recordRemoval roomId creatorOwnerId ownerId agents label => exact recordRemoval_follow 5
  | completeRemoval roomId ownerId generation => exact completeRemoval_follow 5
  | inviteRemovalState invite ownerId =>
    exact (inviteRemovalState_follow stable_true invite ownerId).mono fun _ _ held => held.2
  | setAgentRemoved roomId userId removed => exact setAgentRemoved_follow 5
  | readEligibleInvite inviteRef principal => exact readEligibleInvite_follow principal
  | shareInvite ownerId operationId roomId asked =>
    refine (shareInvite_follow persistent_true fun store policy _ stored => ?_).mono
      fun _ _ held => held.2
    exact Or.inl ⟨asked, rfl, stored⟩
  | personalLink ownerId roomId => exact personalLink_follow persistent_true
  | revokeInvite ownerId operationId inviteRef => exact revokeInvite_follow

end Khala.Channels
