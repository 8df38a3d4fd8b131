import Khala.Control.JoinRuns

/-! What each request on a join does to it and says about it, and that it does so in every run. -/

namespace Khala.AgentJoin

open Js Concurrent

variable {deps : JoinDeps} {forward : Bool} {tag : Nat} {call : JoinCall} {known : JoinWorld → Prop}

/-- The join has belonged to the principal. -/
def OwnedBy (joinId ownerId : Text) (world : JoinWorld) : Prop :=
  ∃ version ∈ world.versions, version.key = joinId ∧ version.data.ownerId = some ownerId

/-- A response that confirms nothing: an error, or the view of a join whose time is over. -/
def Refused (response : JoinResponse) : Prop :=
  (∃ status code, response = .error status code) ∨ ∃ view, response = .view view
    ∧ view.state = .expired

/-- A confirmation by the principal holds, or it is refused. -/
def Outcome (forward : Bool) (joinId ownerId : Text) (response : JoinResponse) (world : JoinWorld) :
    Prop :=
  OwnedBy joinId ownerId world ∨ (forward = true → Refused response)

/-- Who owns a join lasts. -/
theorem lasting_ownedBy (joinId ownerId : Text) : Lasting forward (OwnedBy joinId ownerId) := by
  rintro before after grown ⟨version, member, rest⟩
  exact ⟨version, grown.later.mem member, rest⟩

/-- The outcome of a join lasts. -/
theorem lasting_outcome (joinId ownerId : Text) (response : JoinResponse) :
    Lasting forward (Outcome forward joinId ownerId response) :=
  fun before after grown held => held.imp (lasting_ownedBy _ _ before after grown) id

/-- A version with an owner is owned. -/
theorem HasVersion.ownedBy {joinId ownerId : Text} {revision : Nat} {record : JoinRecord}
    {world : JoinWorld} (had : HasVersion joinId revision record world)
    (own : record.ownerId = some ownerId) :
    OwnedBy joinId ownerId world := by
  obtain ⟨version, member, key, -, rfl⟩ := had
  exact ⟨version, member, key, own⟩

/-- Being unavailable is a refusal. -/
theorem refused_unavailable : Refused unavailable := Or.inl ⟨_, _, rfl⟩

/-! ## Parts of requests -/

/-- Making a view writes nothing. -/
theorem viewOf_meets (lasting : Lasting forward known) (record : JoinRecord) :
    Meets deps forward tag call known (viewOf record) fun _ => known :=
  .bind (clock_meets lasting) fun _ => .done _ fun _ held => held.1

/-- Once the time of a join is seen to be over, its view says so. -/
theorem viewOf_expired (lasting : Lasting forward known) {record : JoinRecord} {time : Int}
    (elapsed : effectiveState record time = .expired) :
    Meets deps forward tag call (fun world => known world ∧ (forward = true → time ≤ world.now))
      (viewOf record)
      fun view _ => forward = true → view.state = .expired := by
  refine .bind (clock_now (lasting.and (lasting_clock time))) fun now =>
    .done _ fun world held ahead => ?_
  have later : time ≤ now := held.2 ▸ held.1.2 ahead
  simp only [effectiveState] at elapsed ⊢
  split at elapsed
  · rename_i due
    rw [if_pos ⟨due.1, due.2.trans later⟩]
  · rw [elapsed]
    simp

/-- Checking the membership writes nothing, and denies by a refusal. -/
theorem membership_meets (lasting : Lasting forward known) (principal : Principal)
    (record : JoinRecord) :
    Meets deps forward tag call known (membership principal record) fun denied world =>
      known world ∧ ∀ response, denied = some response → Refused response := by
  refine .bind (ask_meets lasting _) fun reply => ?_
  match reply with
  | some .joined => exact .done _ fun world held => ⟨held, fun _ same => by cases same⟩
  | some .absent => exact .done _ fun world held =>
    ⟨held, fun _ same => by cases same; exact Or.inl ⟨_, _, rfl⟩⟩
  | some .unavailable => exact .done _ fun world held =>
    ⟨held, fun _ same => by cases same; exact refused_unavailable⟩
  | none => exact .done _ fun world held =>
    ⟨held, fun _ same => by cases same; exact refused_unavailable⟩

/-- An invite's refusal is a refusal. -/
theorem inviteRefusal_refused (refusal : InviteRefusal) : Refused (inviteRefusal refusal) := by
  cases refusal <;> exact Or.inl ⟨_, _, rfl⟩

/-- Checking the invite writes nothing, and denies by a refusal. -/
theorem inviteAccess_meets (lasting : Lasting forward known) (principal : Principal)
    (record : JoinRecord) (admits : Bool) :
    Meets deps forward tag call known (inviteAccess deps principal record admits)
      fun denied world =>
      known world ∧ ∀ response, denied = some response → Refused response := by
  -- Each refusal ends the check.
  have refuse : ∀ response, Refused response →
    Meets deps forward tag call known (pure (some response))
      fun denied world => known world ∧ ∀ response, denied = some response → Refused response :=
    fun response refused => .done _ fun world held =>
      ⟨held, fun _ same => by cases same; exact refused⟩
  unfold inviteAccess
  split
  · exact refuse _ (Or.inl ⟨_, _, rfl⟩)
  · exact refuse _ (Or.inl ⟨_, _, rfl⟩)
  -- The gate of the invite is asked first, and then what it says.
  · refine .bind (ask_meets lasting _) fun reply => ?_
    match reply with
    | none => exact refuse _ refused_unavailable
    | some false => exact refuse _ refused_unavailable
    | some true =>
      refine .bind (ask_meets lasting _) fun answer => ?_
      match answer with
      | none => exact refuse _ refused_unavailable
      | some none => exact .done _ fun world held => ⟨held, fun _ same => by cases same⟩
      | some (some refusal) => exact refuse _ (inviteRefusal_refused refusal)

/-! ## The agent's requests -/

/-- The join that a request names. -/
def AgentRequest.joinId (request : AgentRequest) : Option Text :=
  match request.params with
  | [(_, joinId)] => some joinId
  | _ => none

/-- A request is authenticated by a version of its own join. -/
theorem authenticate_meets (lasting : Lasting forward known) (request : AgentRequest) :
    Meets deps forward tag call known (authenticate deps request) fun found world => known world ∧
      ∀ record revision, found = some (record, revision) →
        request.joinId = some record.joinId ∧ HasVersion record.joinId revision record world := by
  -- Every failure ends with nothing found.
  have failed : Meets deps forward tag call known (pure none) fun found world => known world ∧
      ∀ record revision, found = some (record, revision) →
        request.joinId = some record.joinId ∧ HasVersion record.joinId revision record world :=
    .done _ fun world held => ⟨held, fun _ _ same => by cases same⟩
  unfold authenticate
  split
  · rename_i name joinId bearer params authorization
    split
    · exact failed
    -- The join is read, and its token compared.
    · refine .bind (joinsRead_meets lasting joinId) fun reply => ?_
      match reply with
      | .absent => exact failed.weaken fun world held => held.1
      | .unavailable => exact failed.weaken fun world held => held.1
      | .found record revision =>
        dsimp only
        split
        -- It is the join that the request names, and was read in this revision.
        · refine .done _ fun world held => ⟨held.1, fun _ _ same => ?_⟩
          cases same
          obtain ⟨had, named, -⟩ := held.2 _ _ rfl
          exact ⟨by rw [AgentRequest.joinId, params, named], named ▸ had⟩
        · exact failed.weaken fun world held => held.1
  · exact failed

/-- A poll that carries credentials has claimed the join. -/
theorem poll_meets (request : AgentRequest) (acts : call.principal = none) :
    Meets deps forward tag call (fun _ => True) (poll deps request) fun response world =>
      ∀ credentials, response = .credentials credentials → ∃ joinId revision record,
        request.joinId = some joinId ∧ record.state = .claimed
          ∧ HasWritten tag call joinId .claim revision record world := by
  have other : ∀ {known : JoinWorld → Prop} response,
    (∀ credentials, response ≠ JoinResponse.credentials credentials) →
      Meets deps forward tag call known (pure response) fun response world =>
        ∀ credentials, response = .credentials credentials → ∃ joinId revision record,
          request.joinId = some joinId ∧ record.state = .claimed
            ∧ HasWritten tag call joinId .claim revision record world :=
    fun response apart => .done _ fun _ _ credentials same => absurd same (apart credentials)
  unfold poll
  refine .bind (authenticate_meets lasting_true request) fun found => ?_
  cases found with
  | none => exact other _ fun _ same => by cases same
  | some found =>
    obtain ⟨record, revision⟩ := found
    refine .of_fact (fun world held => (held.2 record revision rfl).1) fun named => ?_
    refine .knowing (HasVersion record.joinId revision record)
      (fun world held => (held.2 _ _ rfl).2) ?_
    have lasting : Lasting forward (HasVersion record.joinId revision record) :=
      lasting_hasVersion _ _ _
    refine .bind (clock_meets lasting) fun now => ?_
    dsimp only
    split
    · exact other _ fun _ same => by cases same
    rename_i confirmed
    have confirmed : effectiveState record now = .confirmed := Decidable.not_not.mp confirmed
    -- A join that is confirmed now is stored as confirmed.
    have was : record.state = .confirmed := by
      simp only [effectiveState] at confirmed
      split at confirmed
      · cases confirmed
      · exact confirmed
    split
    · exact other _ fun _ same => by cases same
    · refine .bind (replace_meets (lasting.and (lasting_clock now))
        (fun world held => ⟨record, held.1, .claim was rfl⟩)
        (fun _ same => acts.trans (Option.some.inj same))
          fun world held _ expired => by cases expired) fun reply => ?_
      cases reply with
      | applied revision =>
        exact .done _ fun world held _ _ => ⟨record.joinId, revision, _, named, rfl, held.2 _ rfl⟩
      | conflict =>
        refine .bind (joinsRead_meets lasting_true record.joinId |>.weaken fun _ _ => trivial)
          fun read => ?_
        cases read with
        | found latest _ =>
          dsimp only
          split
          · exact other _ fun _ same => by cases same
          · exact other _ fun _ same => by cases same
        | absent => exact other _ fun _ same => by cases same
        | unavailable => exact other _ fun _ same => by cases same
      | unknown => exact other _ fun _ same => by cases same
      | unavailable => exact other _ fun _ same => by cases same

/-- A request to be ready moves a claimed join on, if anything. -/
theorem ready_meets (request : AgentRequest) (acts : call.principal = none) :
    Meets deps forward tag call (fun _ => True) (ready deps request) fun _ _ => True := by
  have any : ∀ {known : JoinWorld → Prop} (response : JoinResponse),
      Meets deps forward tag call known (pure response) fun _ _ => True :=
        fun _ => .done _ fun _ _ => trivial
  unfold ready
  -- The agent is known, and its join is looked at in time.
  refine .bind (authenticate_meets lasting_true request) fun found => ?_
  cases found with
  | none => exact any _
  | some found =>
    obtain ⟨record, revision⟩ := found
    refine .knowing (HasVersion record.joinId revision record)
      (fun world held => (held.2 _ _ rfl).2) ?_
    have lasting : Lasting forward (HasVersion record.joinId revision record) :=
      lasting_hasVersion _ _ _
    refine .bind (clock_meets lasting) fun now => ?_
    dsimp only
    split
    · exact any _
    split
    · exact any _
    -- Claimed in time, it is claimed in its record as well.
    rename_i claimed
    have claimed : effectiveState record now = .claimed := Decidable.not_not.mp claimed
    have was : record.state = .claimed := by
      simp only [effectiveState] at claimed
      split at claimed
      · cases claimed
      · exact claimed
    split
    -- The join becomes ready by one write.
    · refine .bind (ask_meets (lasting.and (lasting_clock now)) _) fun reply => ?_
      cases reply with
      | none => exact any _
      | some answer =>
        cases answer with
        | false => exact any _
        | true =>
          refine .bind (replace_meets (lasting.and (lasting_clock now))
            (fun world held => ⟨record, held.1, .ready was rfl⟩)
            (fun _ same => acts.trans (Option.some.inj same))
              fun world held _ expired => by cases expired) fun reply => ?_
          cases reply with
          | applied revision => exact any _
          -- Somebody else wrote to the join, and it may be ready by now.
          | conflict =>
            refine .bind (joinsRead_meets lasting_true record.joinId |>.weaken fun _ _ => trivial)
              fun read => ?_
            cases read with
            | found latest _ =>
              dsimp only
              split
              · exact any _
              · exact any _
            | absent => exact any _
            | unavailable => exact any _
          | unknown => exact any _
          | unavailable => exact any _
    · exact any _

/-! ## Confirmation -/

/-- The call knows a pending version of the join, under the revision, that belongs to the principal
it acts for. -/
structure Holding (forward : Bool) (call : JoinCall) (joinId ownerId : Text) (revision : Nat)
    (known : JoinWorld → Prop) : Prop where
  lasting : Lasting forward known
  acts : call.principal = some ownerId
  source : ∀ world, known world → ∃ old, HasVersion joinId revision old world ∧ old.state = .pending
    ∧ old.ownerId = some ownerId

namespace Holding

variable {joinId ownerId : Text} {revision : Nat}

/-- A join that is held is owned. -/
theorem ownedBy (holding : Holding forward call joinId ownerId revision known) {world : JoinWorld}
    (held : known world) :
    OwnedBy joinId ownerId world := by
  obtain ⟨old, had, -, own⟩ := holding.source world held
  exact had.ownedBy own

/-- A version that was just written, or read, is known from then on. -/
theorem of_hasVersion {record : JoinRecord} (acts : call.principal = some ownerId)
    (was : record.state = .pending) (own : record.ownerId = some ownerId) :
    Holding forward call joinId ownerId revision (HasVersion joinId revision record) :=
  ⟨lasting_hasVersion _ _ _, acts, fun _ held => ⟨record, held, was, own⟩⟩

/-- Whatever is answered, the join belongs to the principal. -/
theorem done (holding : Holding forward call joinId ownerId revision known) {α : Type}
    (result : α) :
    Meets deps forward tag call known (pure result) fun _ world => OwnedBy joinId ownerId world :=
  .done _ fun _ held => holding.ownedBy held

/-- A view of a join that is held is of an owned one. -/
theorem view (holding : Holding forward call joinId ownerId revision known) (record : JoinRecord) :
    Meets deps forward tag call known (do return JoinResponse.view (← viewOf record))
      fun _ world => OwnedBy joinId ownerId world :=
  .bind (viewOf_meets holding.lasting record) fun _ => holding.done _

end Holding

section

variable {joinId : Text} {principal : Principal} {approvedUsername : Option Text} {username identityId userId name : Text}
  {issuedGeneration revision : Nat} {credentials : AgentCredentials} {record : JoinRecord}

/-- Checking the approval writes nothing. -/
theorem approvalHolds_meets {known : JoinWorld → Prop} (lasting : Lasting forward known)
    (identityId : Text) (principal : Principal) (approvedUsername : Option Text) :
    Meets deps forward tag call known (approvalHolds identityId principal approvedUsername) fun _ => known := by
  match approvedUsername with
  | none => exact .done _ fun _ held => held
  | some _ =>
    refine .bind (ask_meets lasting _) fun reply => ?_
    match reply with
    | some (.record (some approval)) => exact .done _ fun _ held => held
    | some (.record none) => exact .done _ fun _ held => held
    | some .absent => exact .done _ fun _ held => held
    | some .unavailable => exact .done _ fun _ held => held
    | none => exact .done _ fun _ held => held

/-- The confirming write stores the principal's agent. -/
theorem confirmStaged_meets (holding : Holding forward call joinId principal.ownerId revision known)
    (agent : credentials.userId = deps.agentUserId (identityOf deps record) principal.ownerId) :
    Meets deps forward tag call known
      (confirmStaged deps joinId principal approvedUsername username identityId userId issuedGeneration credentials
        name record revision)
      fun _ world => OwnedBy joinId principal.ownerId world := by
  have lasting := holding.lasting
  have timed : ∀ now : Int, Holding forward call joinId principal.ownerId revision
      fun world => known world ∧ (forward = true → now ≤ world.now) := fun now =>
    ⟨lasting.and (lasting_clock now), holding.acts, fun world held => holding.source world held.1⟩
  unfold confirmStaged
  refine .bind (clock_meets lasting) fun now => ?_
  have holding := timed now
  have lasting := holding.lasting
  split
  · refine .bind (joinsRead_meets lasting joinId) fun _ => ?_
    exact (holding.view record).weaken fun world held => held.1
  -- An approval that is no longer in force ends the call; everything else leads to the write.
  refine .bind (approvalHolds_meets lasting _ _ _) fun granted => ?_
  split
  · exact holding.done _
  refine .bind (ask_meets lasting _) fun reply => ?_
  match reply with
  | none => exact holding.done _
  | some sealedCredentials =>
    refine .bind (replace_meets lasting (fun world held => ?_)
      (fun _ same => holding.acts.trans (Option.some.inj same)) fun world held _ expired => by cases expired)
      fun reply => ?_
    · obtain ⟨old, had, was, own⟩ := holding.source world held
      exact ⟨old, had, .confirm principal.ownerId was own rfl rfl (congrArg some agent)⟩
    match reply with
    | .applied revision =>
      refine .knowing (OwnedBy joinId principal.ownerId) (fun world held => holding.ownedBy held.1) ?_
      refine .bind (ask_meets (lasting_ownedBy _ _) _) fun reply => ?_
      match reply with
      | none => exact .done _ fun _ held => held
      | some _ =>
        refine .bind (ask_meets (lasting_ownedBy _ _) _) fun reply => ?_
        match reply with
        | none => exact .done _ fun _ held => held
        | some false => exact .done _ fun _ held => held
        | some true => exact .bind (viewOf_meets (lasting_ownedBy _ _) _) fun _ => .done _ fun _ held => held
    | .conflict =>
      refine .bind (joinsRead_meets lasting joinId |>.weaken fun world held => held.1) fun read => ?_
      refine .knowing (OwnedBy joinId principal.ownerId) (fun world held => holding.ownedBy held.1) ?_
      match read with
      | .found latest _ =>
        dsimp only
        split
        · refine .bind (ask_meets (lasting_ownedBy _ _) _) fun reply => ?_
          match reply with
          | none => exact .done _ fun _ held => held
          | some _ => exact .bind (viewOf_meets (lasting_ownedBy _ _) _) fun _ => .done _ fun _ held => held
        · exact .done _ fun _ held => held
      | .absent => exact .done _ fun _ held => held
      | .unavailable => exact .done _ fun _ held => held
    | .unknown => exact (holding.done _).weaken fun world held => held.1
    | .unavailable => exact (holding.done _).weaken fun world held => held.1

/-- Staging keeps the owner, over the version that was read or over a newer one of the same owner.
-/
theorem stage_meets {rejoin : Bool}
    (holding : Holding forward call joinId principal.ownerId revision known)
    (was : record.state = .pending) (own : record.ownerId = some principal.ownerId)
    (user : userId = deps.agentUserId (identityOf deps record) principal.ownerId)
    (agent : credentials.userId = userId) :
    Meets deps forward tag call known
      (stage deps joinId principal approvedUsername username identityId userId issuedGeneration credentials rejoin name
        record revision)
      fun _ world => OwnedBy joinId principal.ownerId world := by
  -- Confirming goes on from every revision that the principal is known to hold.
  have confirmed : ∀ {known : JoinWorld → Prop} (revision : Nat),
      Holding forward call joinId principal.ownerId revision known →
      Meets deps forward tag call known
        (confirmStaged deps joinId principal approvedUsername username identityId userId issuedGeneration credentials
          name { record with rejoin := rejoin || record.rejoin, label := name, agentUserId := some userId } revision)
        fun _ world => OwnedBy joinId principal.ownerId world :=
    fun _ holding => confirmStaged_meets holding (agent.trans user)
  have staged : ∀ {known : JoinWorld → Prop} {revision : Nat},
      Holding forward call joinId principal.ownerId revision known →
      Meets deps forward tag call known
        (replace joinId (some revision)
          { record with rejoin := rejoin || record.rejoin, label := name, agentUserId := some userId } .name)
        fun reply world => known world ∧ ∀ revision, reply = .applied revision →
          HasWritten tag call joinId .name revision
            { record with rejoin := rejoin || record.rejoin, label := name, agentUserId := some userId } world := by
    intro known revision holding
    refine replace_meets holding.lasting (fun world held => ?_)
      (fun _ same => (holding.acts.trans own.symm).trans (Option.some.inj same))
      fun world held _ expired => by simp [was] at expired
    obtain ⟨old, had, pending, owned⟩ := holding.source world held
    exact ⟨old, had, .name principal.ownerId pending owned was own⟩
  have fresh : ∀ revision, Holding forward call joinId principal.ownerId revision (HasVersion joinId revision
      { record with rejoin := rejoin || record.rejoin, label := name, agentUserId := some userId }) :=
    fun revision => .of_hasVersion holding.acts was own
  unfold stage
  refine .bind (clock_meets holding.lasting) fun now => ?_
  refine .knowing known (fun world held => held.1) ?_
  split
  · exact holding.view record
  refine .bind (staged holding) fun reply => ?_
  match reply with
  | .applied revision =>
    exact (confirmed revision (fresh revision)).weaken fun world held => (held.2 _ rfl).hasVersion
  | .conflict =>
    refine .bind (joinsRead_meets holding.lasting joinId |>.weaken fun world held => held.1)
      fun read => ?_
    match read with
    | .absent => exact (holding.done _).weaken fun world held => held.1
    | .unavailable => exact (holding.done _).weaken fun world held => held.1
    | .found latest latestRevision =>
      dsimp only
      split
      · exact (holding.done _).weaken fun world held => held.1
      rename_i same
      have same : latest.ownerId = some principal.ownerId := Decidable.not_not.mp same
      split
      · exact (holding.view latest).weaken fun world held => held.1
      split
      · exact (holding.view latest).weaken fun world held => held.1
      rename_i pending
      have pending : latest.state = .pending := Decidable.not_not.mp pending
      -- The newer version is pending and the principal's, so it may be staged as well.
      have newer : Holding forward call joinId principal.ownerId latestRevision
          (HasVersion joinId latestRevision latest) := .of_hasVersion holding.acts pending same
      refine .knowing (HasVersion joinId latestRevision latest)
        (fun world held => (held.2 _ _ rfl).1) ?_
      refine .bind (clock_meets newer.lasting) fun now => ?_
      refine .knowing (HasVersion joinId latestRevision latest) (fun world held => held.1) ?_
      split
      · exact newer.view latest
      split
      · exact confirmed latestRevision newer
      · refine .bind (staged newer) fun reply => ?_
        match reply with
        | .applied revision =>
          exact (confirmed revision (fresh revision)).weaken fun world held =>
            (held.2 _ rfl).hasVersion
        | .conflict => exact (newer.done _).weaken fun world held => held.1
        | .unknown => exact (newer.done _).weaken fun world held => held.1
        | .unavailable => exact (newer.done _).weaken fun world held => held.1
  | .unknown => exact (holding.done _).weaken fun world held => held.1
  | .unavailable => exact (holding.done _).weaken fun world held => held.1

/-- Provisioning asks much and writes nothing before it stages the join. -/
theorem provisionNamed_meets {previous : Option AgentOwnerRecord}
    (holding : Holding forward call joinId principal.ownerId revision known)
    (was : record.state = .pending) (own : record.ownerId = some principal.ownerId)
    (user : userId = deps.agentUserId (identityOf deps record) principal.ownerId) :
    Meets deps forward tag call known
      (provisionNamed deps joinId principal approvedUsername username identityId userId previous
        name record revision)
      fun _ world => OwnedBy joinId principal.ownerId world := by
  have lasting := holding.lasting
  unfold provisionNamed
  -- Each question may fail, and then the join is as the principal holds it.
  refine .bind (ask_meets lasting _) fun reply => ?_
  match reply with
  | none => exact holding.done _
  | some none => exact holding.done _
  | some (some removal) =>
    dsimp only
    split
    · exact holding.done _
    refine .bind (ask_meets lasting _) fun reply => ?_
    match reply with
    | none => exact holding.done _
    | some false => exact holding.done _
    | some true =>
      refine .bind (ask_meets lasting _) fun reply => ?_
      match reply with
      | none => exact holding.done _
      | some none => exact holding.done _
      | some (some credentials) =>
        dsimp only
        split
        · exact holding.done _
        -- The credentials are those of the agent asked for.
        rename_i agent
        have agent : credentials.userId = userId := Decidable.not_not.mp agent
        refine .bind (ask_meets lasting _) fun reply => ?_
        match reply with
        | none => exact holding.done _
        | some false => exact holding.done _
        | some true =>
          refine .bind (ask_meets lasting _) fun reply => ?_
          match reply with
          | none => exact holding.done _
          | some after =>
            -- The access is checked once more, after the agent was made.
            refine .bind ((membership_meets lasting principal record).mono fun _ _ said => said.1)
              fun denied => ?_
            split
            · refine .bind (ask_meets lasting _) fun reply => ?_
              match reply with
              | none => exact holding.done _
              | some false => exact holding.done _
              | some true => exact holding.done _
            -- The time is that of an earlier record, if there is one.
            refine .seq ?_ fun createdAt => ?_
            · cases previous with
              | none => exact (clock_meets lasting).mono fun _ _ said => said.1
              | some previous => exact .done _ fun _ held => held
            -- At last the record of the owner is written, or found written.
            refine .bind (ask_meets lasting _) fun reply => ?_
            match reply with
            | some (.applied _ _) => exact stage_meets holding was own user agent
            | some (.conflict (some (_, held))) =>
              dsimp only
              split
              · exact stage_meets holding was own user agent
              · exact holding.done _
            | some (.conflict none) => exact holding.done _
            | some .operationMismatch => exact holding.done _
            | some .outcomeUnknown => exact holding.done _
            | some .unavailable => exact holding.done _
            | none => exact holding.done _

/-- Provisioning an owned join does what the contract allows. -/
theorem provisionOwned_meets
    (holding : Holding forward call joinId principal.ownerId revision known)
    (was : record.state = .pending) (own : record.ownerId = some principal.ownerId)
    (named : record.joinId = joinId) :
    Meets deps forward tag call known
      (provisionOwned deps joinId principal approvedUsername record revision)
      fun _ world => OwnedBy joinId principal.ownerId world := by
  have lasting := holding.lasting
  -- The agent's identity is that of the join, or of an earlier one.
  have user : deps.agentUserId ((rejoinIdentity deps record).getD joinId) principal.ownerId
      = deps.agentUserId (identityOf deps record) principal.ownerId := by rw [identityOf, named]
  unfold provisionOwned
  refine .bind (ask_meets lasting _) fun reply => ?_
  match reply with
  | none => exact holding.done _
  | some none => exact holding.done _
  | some (some username) =>
    dsimp only
    split
    · exact holding.done _
    -- The name of the user is restored where it was approved before.
    refine .seq ?_ fun restored => ?_
    · cases approvedUsername with
      | none => exact ask_meets lasting _
      | some _ => exact .done _ fun _ held => held
    split
    · exact holding.done _
    -- The earlier record, if there is one, decides how the agent is named.
    refine .bind (ask_meets lasting _) fun reply => ?_
    match reply with
    | some (.record (some previous)) =>
      dsimp only
      split
      · exact holding.done _
      · exact provisionNamed_meets holding was own user
    | some .absent =>
      dsimp only
      split
      · exact provisionNamed_meets holding was own user
      · refine .bind (ask_meets lasting _) fun reply => ?_
        match reply with
        | none => exact holding.done _
        | some none => exact holding.done _
        | some (some names) => exact provisionNamed_meets holding was own user
    | some (.record none) => exact holding.done _
    | some .unavailable => exact holding.done _
    | none => exact holding.done _

/-- A confirmation holds for its principal, or it is refused. -/
theorem confirm_meets (acts : call.principal = some principal.ownerId) :
    Meets deps forward tag call (fun _ => True) (confirm deps joinId principal approvedUsername)
      (Outcome forward joinId principal.ownerId) := by
  -- A refusal says nothing of who owns the join.
  have refuse : ∀ {known : JoinWorld → Prop} response, Refused response →
      Meets deps forward tag call known (pure response)
        (Outcome forward joinId principal.ownerId) :=
    fun _ refused => .done _ fun _ _ => Or.inr fun _ => refused
  -- The statement is for any number of attempts.
  have general : ∀ attempts, Meets deps forward tag call (fun _ => True)
      (confirmJoin deps joinId principal approvedUsername attempts)
        (Outcome forward joinId principal.ownerId) := by
    intro attempts
    induction attempts with
    | zero => exact refuse _ refused_unavailable
    | succ attempts ih =>
      -- The join is read, and what was read stays one of its versions.
      refine .bind (joinsRead_meets lasting_true joinId) fun reply => ?_
      cases reply with
      | absent => exact refuse _ (Or.inl ⟨_, _, rfl⟩)
      | unavailable => exact refuse _ refused_unavailable
      | found record revision =>
        refine .of_fact (fun world held => (held.2 record revision rfl).2) fun read => ?_
        obtain ⟨named, settled⟩ := read
        refine .knowing (HasVersion joinId revision record)
          (fun world held => (held.2 _ _ rfl).1) ?_
        have lasting : Lasting forward (HasVersion joinId revision record) :=
          lasting_hasVersion _ _ _
        -- Its access comes before anything else.
        refine .bind (membership_meets lasting principal record) fun denied => ?_
        cases denied with
        | some denied =>
          exact .done _ fun world held => Or.inr fun _ => held.2 denied rfl
        | none =>
          refine .knowing (HasVersion joinId revision record) (fun world held => held.1) ?_
          refine .bind (clock_meets lasting) fun now => ?_
          split
          · -- The view of a join whose time is over.
            rename_i elapsed
            refine .bind (viewOf_expired lasting elapsed) fun view => .done _ fun world held =>
              Or.inr fun ahead => ?_
            exact Or.inr ⟨view, rfl, held ahead⟩
          rename_i inTime
          refine .knowing (HasVersion joinId revision record) (fun world held => held.1) ?_
          split
          · exact refuse _ (Or.inl ⟨_, _, rfl⟩)
          rename_i free
          -- Nobody else owns it.
          have free : ∀ ownerId, record.ownerId = some ownerId → ownerId = principal.ownerId := by
            intro ownerId own
            simpa [own] using free
          split
          · -- A settled join belongs to the principal already.
            rename_i confirmed
            obtain ⟨ownerId, own, -⟩ := settled confirmed
            have own : record.ownerId = some principal.ownerId :=
              own.trans (congrArg some (free ownerId own))
            have owned : ∀ world, HasVersion joinId revision record world →
                Outcome forward joinId principal.ownerId unavailable world := fun world held =>
                  Or.inl (held.ownedBy own)
            split
            · exact .bind (viewOf_meets lasting record) fun _ => .done _ fun world held =>
                Or.inl (held.ownedBy own)
            · refine .bind (ask_meets lasting _) fun reply => ?_
              cases reply with
              | none => exact .done _ owned
              | some answer =>
                cases answer with
                | false => exact .done _ owned
                | true =>
                  exact .bind (viewOf_meets lasting record) fun _ => .done _ fun world held =>
                    Or.inl (held.ownedBy own)
          rename_i unconfirmed
          -- In time and not confirmed, the join is pending.
          have pending : record.state = .pending := by
            simp only [effectiveState] at inTime
            cases state : record.state <;> simp [state] at inTime unconfirmed ⊢
          split
          -- The principal owns it already.
          · rename_i owned
            obtain ⟨ownerId, own⟩ := Option.isSome_iff_exists.mp owned
            have own : record.ownerId = some principal.ownerId :=
              own.trans (congrArg some (free ownerId own))
            exact (provisionOwned_meets (.of_hasVersion acts pending own) pending own named).mono
              fun _ _ owned => Or.inl owned
          · -- The principal takes the join, unless somebody was faster.
            rename_i unowned
            have unowned : record.ownerId = none := by simpa using unowned
            refine .bind (replace_meets lasting (fun world held =>
              ⟨record, held, .owner principal.ownerId pending unowned rfl⟩)
              (fun _ same => acts.trans (Option.some.inj same))
                fun world held _ expired => by simp [pending] at expired)
              fun reply => ?_
            cases reply with
            | conflict => exact ih.weaken fun _ _ => trivial
            | applied revision =>
              have holding : Holding forward call joinId principal.ownerId revision
                  (HasVersion joinId revision { record with ownerId := some principal.ownerId }) :=
                .of_hasVersion acts pending rfl
              refine .knowing (HasVersion joinId revision { record with ownerId := some principal.ownerId })
                (fun world held => (held.2 _ rfl).hasVersion) ?_
              have owned : Meets deps forward tag call
                  (HasVersion joinId revision { record with ownerId := some principal.ownerId })
                  (provisionOwned deps joinId principal approvedUsername
                    { record with ownerId := some principal.ownerId } revision)
                  fun _ world => OwnedBy joinId principal.ownerId world :=
                provisionOwned_meets holding pending rfl named
              exact owned.mono fun _ _ owned => Or.inl owned
            | unknown => exact refuse _ refused_unavailable
            | unavailable => exact refuse _ refused_unavailable
  exact general 2

/-! ## Requests around a confirmation -/

/-- Admission writes nothing, and denies by a refusal. -/
theorem admission_meets (lasting : Lasting forward known) (mutation : Bool)
    {denied : Option JoinResponse}
    (refused : ∀ response, denied = some response → Refused response) :
    Meets deps forward tag call known (admission deps principal record mutation denied)
      fun admitted world =>
      known world ∧ ∀ response, admitted.2 = some response → Refused response := by
  -- What was refused before stays so.
  have kept : Meets deps forward tag call known (pure (false, denied)) fun admitted world =>
      known world ∧ ∀ response, admitted.2 = some response → Refused response :=
    .done _ fun _ held => ⟨held, refused⟩
  unfold admission
  -- Only a pending join in time is asked about again.
  split
  · split
    · exact kept
    refine .bind (clock_meets lasting) fun now => ?_
    refine .knowing known (fun world held => held.1) ?_
    split
    · exact kept
    · exact .bind (inviteAccess_meets lasting principal record mutation) fun _ =>
        .done _ fun _ held => held
  · exact kept

/-- A pending view writes nothing. -/
theorem pendingView_meets (lasting : Lasting forward known) (joining : Bool)
    (view : AgentJoinView) :
    Meets deps forward tag call known (pendingView deps principal record joining view) fun _ _ =>
      True := by
  have any : ∀ response : JoinResponse, Meets deps forward tag call known (pure response)
    fun _ _ => True :=
    fun _ => .done _ fun _ _ => trivial
  -- Whether it may join by itself is only a question.
  have auto : Meets deps forward tag call known (autoAccess deps principal record joining) fun _ =>
    known := by
    unfold autoAccess
    split
    · exact .done _ fun _ held => held
    · refine .bind (ask_meets lasting _) fun reply => ?_
      match reply with
      | some (some false) =>
        exact .bind (inviteAccess_meets lasting principal record false) fun _ =>
          .done _ fun _ held => held.1
      | some (some true) => exact .done _ fun _ held => held
      | some none => exact .done _ fun _ held => held
      | none => exact .done _ fun _ held => held
  -- What is shown depends on further questions, and each may fail.
  unfold pendingView
  refine .bind auto fun auto => .bind (ask_meets lasting _) fun reply => ?_
  match reply with
  | none => exact any _
  | some none => exact any _
  | some (some username) =>
    dsimp only
    split
    · exact any _
    refine .bind (ask_meets lasting _) fun reply => ?_
    match reply with
    | none => exact any _
    | some (.record (some previous)) =>
      dsimp only
      split
      · exact any _
      · refine .bind (ask_meets lasting _) fun reply => ?_
        match reply with
        | none => exact any _
        | some names => exact any _
    | some (.record none) =>
      refine .bind (ask_meets lasting _) fun reply => ?_
      match reply with
      | none => exact any _
      | some names => exact any _
    | some .absent =>
      refine .bind (ask_meets lasting _) fun reply => ?_
      match reply with
      | none => exact any _
      | some names => exact any _
    | some .unavailable =>
      refine .bind (ask_meets lasting _) fun reply => ?_
      match reply with
      | none => exact any _
      | some names => exact any _

/-- A human's request either shows the join or ends like a confirmation. -/
theorem humanRequest_meets (mutation : Bool) (acts : call.principal = some principal.ownerId) :
    Meets deps forward tag call (fun _ => True) (humanRequest deps mutation joinId principal)
      fun response world => mutation = true →
      Outcome forward joinId principal.ownerId response world := by
  have refuse : ∀ {known : JoinWorld → Prop} response, Refused response →
    Meets deps forward tag call known (pure response)
      fun response world => mutation = true →
        Outcome forward joinId principal.ownerId response world :=
    fun _ refused => .done _ fun _ _ _ => Or.inr fun _ => refused
  unfold humanRequest
  split
  · exact refuse _ (Or.inl ⟨_, _, rfl⟩)
  -- The join is read before anything is decided.
  refine .bind (joinsRead_meets lasting_true joinId) fun reply => ?_
  match reply with
  | .absent => exact refuse _ (Or.inl ⟨_, _, rfl⟩)
  | .unavailable => exact refuse _ refused_unavailable
  | .found record revision =>
    refine .knowing (fun _ => True) (fun _ _ => trivial) ?_
    -- Each further question adds one refusal that the code may answer with.
    refine .bind (membership_meets lasting_true principal record) fun denied => ?_
    refine .of_fact (fun world held => held.2) fun refused => ?_
    refine .knowing (fun _ => True) (fun _ _ => trivial) ?_
    refine .bind (admission_meets lasting_true mutation refused) fun admitted => ?_
    refine .of_fact (fun world held => held.2) fun refused => ?_
    refine .knowing (fun _ => True) (fun _ _ => trivial) ?_
    -- Only a mutation confirms, and it does so unless a refusal stands against it.
    obtain ⟨joining, denied⟩ := admitted
    match mutation, joining, denied with
    | true, true, some refusal => exact refuse _ (refused _ rfl)
    | true, true, none => exact (confirm_meets acts).mono fun _ _ held _ => held
    | true, false, some _ => exact (confirm_meets acts).mono fun _ _ held _ => held
    | true, false, none => exact (confirm_meets acts).mono fun _ _ held _ => held
    -- A view changes nothing, so there is nothing to prove of its outcome.
    | false, _, some refusal => exact .done _ fun _ _ no => by cases no
    | false, joining, none =>
      refine .bind (viewOf_meets lasting_true record) fun view => ?_
      split
      · refine .mono (pendingView_meets lasting_true joining view) fun _ _ _ => ?_
        exact fun no => by cases no
      · exact .done _ fun _ _ no => by cases no

end

/-- An automatic confirmation confirms, if at all, for the owner of the approval. -/
theorem autoConfirm_meets {joinId : Text} {approval : Lookup RejoinApproval}
    (acts : ∀ grant, approval = .record (some grant) → call.principal = some grant.ownerId) :
    Meets deps forward tag call (fun _ => True) (autoConfirm deps joinId approval) fun _ _ =>
      True := by
  -- The answer is a flag, and either value is allowed.
  have any : ∀ {known : JoinWorld → Prop} (result : Bool),
      Meets deps forward tag call known (pure result) fun _ _ => True :=
        fun _ => .done _ fun _ _ => trivial
  unfold autoConfirm
  refine .bind (joinsRead_meets lasting_true joinId) fun reply => ?_
  refine .knowing (fun _ => True) (fun _ _ => trivial) ?_
  match reply with
  | .absent => exact any _
  | .unavailable => exact any _
  | .found record revision =>
    dsimp only
    split
    · exact any _
    · exact any _
    -- The approval belongs to the owner who acts here.
    · rename_i identity grant _
      split
      · exact any _
      -- Removals since then and the agent that is gone are asked for before the join is confirmed.
      refine .bind (ask_meets lasting_true _) fun reply => ?_
      match reply with
      | none => exact any _
      | some none => exact any _
      | some (some removals) =>
        dsimp only
        split
        · exact any _
        refine .bind (ask_meets lasting_true _) fun reply => ?_
        match reply with
        | none => exact any _
        | some none => exact any _
        | some (some agentGone) =>
          dsimp only
          split
          · exact any _
          -- What is left is the confirmation that a user makes too.
          refine .bind (confirm_meets (acts grant rfl)) fun response => ?_
          refine .knowing (fun _ => True) (fun _ _ => trivial) ?_
          split
          · refine .bind (ask_meets lasting_true _) fun reply => ?_
            match reply with
            | some (.applied _ _) => exact any _
            | some (.conflict _) => exact any _
            | some .operationMismatch => exact any _
            | some .outcomeUnknown => exact any _
            | some .unavailable => exact any _
            | none => exact any _
          · exact any _
          · exact any _
    · exact any _

/-! ## Every run -/

/-- What the answer to a call tells of the stored joins. -/
def AnswerTrue (forward : Bool) (tag : Nat) : (call : JoinCall) → call.Reply → JoinWorld → Prop
  | .poll request, response, world => ∀ credentials, response = .credentials credentials →
  ∃ joinId revision record,
      request.joinId = some joinId ∧ record.state = .claimed
        ∧ HasWritten tag (.poll request) joinId .claim revision record world
  | .confirm joinId principal _, response, world => Outcome forward joinId principal.ownerId response world
  | .humanRequest mutation joinId principal, response, world =>
      mutation = true → Outcome forward joinId principal.ownerId response world
  | .ready _, _, _ => True
  | .autoConfirm _ _, _, _ => True

/-- What an answer told stays true. -/
theorem lasting_answerTrue (tag : Nat) (call : JoinCall) (reply : call.Reply) :
    Lasting forward (AnswerTrue forward tag call reply) := by
  intro before after grown held
  cases call with
  | poll request =>
    intro credentials same
    obtain ⟨joinId, revision, record, named, claimed, written⟩ := held credentials same
    exact ⟨joinId, revision, record, named, claimed, lasting_hasWritten _ _ _ _ _ _ grown written⟩
  | ready request => trivial
  | confirm joinId principal approvedUsername => exact lasting_outcome _ _ _ _ _ grown held
  | humanRequest mutation joinId principal => exact fun confirms => lasting_outcome _ _ _ _ _ grown (held confirms)
  | autoConfirm joinId approval => trivial

/-- Every call keeps its duty and answers truly. -/
theorem body_meets (tag : Nat) (call : JoinCall) :
    Meets deps forward tag call (fun _ => True) (call.body deps) (AnswerTrue forward tag call) := by
  cases call with
  | poll request => exact poll_meets request rfl
  | ready request => exact ready_meets request rfl
  | confirm joinId principal approvedUsername => exact confirm_meets rfl
  | humanRequest mutation joinId principal => exact humanRequest_meets mutation rfl
  | autoConfirm joinId approval => exact autoConfirm_meets fun grant same => by rw [same]; rfl

/-- The stored joins are in order, and every answer given so far is true of them and has a number of
its own. -/
structure JoinsInvariant (deps : JoinDeps) (forward : Bool)
    (log : List (Answer (joinService deps forward))) (world : JoinWorld) : Prop where
  kept : Kept deps forward world
  answers : ∀ answer ∈ log, AnswerTrue forward answer.tag answer.call answer.reply world
  apart : log.Pairwise fun first second => first.tag ≠ second.tag

/-- What is promised about requests on joins. -/
def joinContract (deps : JoinDeps) (forward : Bool) : Contract (joinService deps forward) where
  invariant := fun log _ world => JoinsInvariant deps forward log world
  duty := joinDuty deps forward
  answer := fun answer _ after => AnswerTrue forward answer.tag answer.call answer.reply after

/-- The invariant is kept while the world grows. -/
theorem JoinsInvariant.grow {log : List (Answer (joinService deps forward))}
    {before after : JoinWorld} (holds : JoinsInvariant deps forward log before)
    (kept : Kept deps forward after) (grown : Grown forward before after) :
    JoinsInvariant deps forward log after :=
  ⟨kept, fun answer member => lasting_answerTrue _ _ _ _ _ grown (holds.answers answer member),
    holds.apart⟩

/-- What the outside does keeps the stored joins in order, and no call minds it. -/
theorem outside_change {world after : JoinWorld} {event : JoinEvent}
    (happened : (joinService deps forward).outside event world = some after) :
    (Kept deps forward world → Kept deps forward after) ∧ Grown forward world after ∧
      ∀ caller, OtherJoins forward caller world after := by
  cases event with
  -- The clock only moves ahead, and nothing else of the world does.
  | clock now =>
    simp only [joinService, Option.ite_none_left_eq_some, Option.some.injEq, not_and] at happened
    obtain ⟨ahead, rfl⟩ := happened
    have grown : Grown forward world { world with now := now } :=
      ⟨.refl _, fun _ member => member, fun forward => not_lt.mp (ahead forward)⟩
    refine ⟨fun kept => ?_, grown, fun _ => ⟨grown, fun _ member _ => Or.inl member, fun _ member _ => member⟩⟩
    exact ⟨kept.chained, kept.versionsDrawn, kept.lateDrawn, kept.numbers,
      fun version member ahead expired => (kept.versionsDue version member ahead expired).trans (grown.clock ahead),
      fun write member ahead expired => (kept.lateDue write member ahead expired).trans (grown.clock ahead)⟩
  -- A late write lands: it is settled as if it were made now, and waits no longer.
  | land index =>
    simp only [joinService, Register.land, Option.map_map, Option.map_eq_some_iff] at happened
    obtain ⟨write, found, rfl⟩ := happened
    have inside : write ∈ world.register.late := List.mem_of_getElem? found
    have fewer : ∀ other ∈ world.register.late.eraseIdx index, other ∈ world.register.late :=
      fun other member => List.mem_of_mem_eraseIdx member
    have grown : Grown forward world { world with register :=
        { (world.register.settle world.live write).2 with late := world.register.late.eraseIdx index } } :=
      ⟨Register.settle_later world.live write, fun _ member => member, fun _ => le_refl _⟩
    -- The write that lands was sourced and drawn when it was made, and stays so.
    refine ⟨fun kept => ?_, grown, fun caller =>
      ⟨grown, fun version member _ => ?_, fun other member _ => fewer other member⟩⟩
    · have settled := kept.settle world.live (kept.chained.late write inside)
        (kept.lateDrawn write inside)
        (kept.lateDue write inside)
      exact ⟨⟨settled.chained.versions, fun other member =>
        (kept.chained.late other (fewer other member)).mono
          (Register.settle_later world.live write)⟩, settled.versionsDrawn,
        fun other member => kept.lateDrawn other (fewer other member), kept.numbers,
          settled.versionsDue,
        fun other member => kept.lateDue other (fewer other member)⟩
    · -- The version that is new is the late write's.
      rcases Register.settle_mem member with old | ⟨key, data, author⟩
      · exact Or.inl old
      · exact Or.inr ⟨write, inside, key, data, author⟩

/-- The contract holds call by call. -/
theorem joinContract_holds : (joinContract deps forward).Holds fun _ _ => True where
  refl := fun _ _ _ world => OtherJoins.refl world
  trans := fun _ _ _ _ _ _ one two => one.trans two
  begins := fun {log next store} call holds => ⟨body_meets next call store store trivial, holds⟩
  works := fun tag call holds _ change => holds.grow (change.kept holds.kept) change.grown
  rests := fun _ _ world => JoinChange.refl world
  answers := by
    intro log next store after answer holds _ fresh change told
    have grown := holds.grow (change.kept holds.kept) change.grown
    refine ⟨grown.kept, fun other member => ?_, ?_⟩
    · rcases List.mem_append.mp member with old | new
      · exact grown.answers other old
      · rw [List.mem_singleton.mp new]
        exact told
    · refine List.pairwise_append.mpr ⟨holds.apart, List.pairwise_singleton _ _,
        fun other member last inside => ?_⟩
      rw [List.mem_singleton.mp inside]
      exact fresh other member
  outside := by
    intro log next store after event holds happened
    obtain ⟨kept, grown, others⟩ := outside_change happened
    exact ⟨holds.grow (kept holds.kept) grown, fun _ _ _ => others _⟩
  permitted := fun sound _ _ _ => sound.invariant.kept
  interferes := by
    intro log config thread choice tag call op next client other tag' call' op' next' client' after
      sound numbered
      permitted busy waiting apart ran change
    -- Two calls under way have different numbers, so what one writes is not the other's.
    have different : some (tag, call) ≠ some (tag', call') := by
      intro same
      cases same
      exact apart (numbered.distinct waiting busy)
    refine ⟨change.grown, fun version member own => ?_, fun write member own => ?_⟩
    · exact (change.versions version member).imp id fun mine =>
        absurd (mine.symm.trans own) different
    · exact (change.late write member).resolve_right fun mine => different (mine.symm.trans own)

/-- Every stored join is as a request to join created it, and nothing else has been written. -/
structure Opened (deps : JoinDeps) (world : JoinWorld) : Prop where
  created : ∀ version ∈ world.versions, Created deps version.key version.data
  distinct : (world.versions.map (·.key)).Nodup
  drawn : ∀ version ∈ world.versions,
    (version.author.operation.random, version.author.caller) ∈ world.drawn
  numbers : (world.drawn.map (·.1)).Nodup
  late : world.register.late = []

/-- The world at the beginning is kept. -/
theorem Opened.kept {world : JoinWorld} (opened : Opened deps world) : Kept deps forward world := by
  refine ⟨⟨fun version member =>
    Or.inl ⟨?_, opened.created version member⟩, by simp [opened.late]⟩, opened.drawn,
    by simp [opened.late], opened.numbers, fun version member _ expired =>
      ?_, by simp [opened.late]⟩
  · -- No two versions have one key, so none replaced another.
    rw [Register.replaced, Versions.newest_eq_none]
    intro other inside same
    simp only [Versions.past, List.mem_filter, decide_eq_true_eq] at inside
    obtain rfl := List.inj_on_of_nodup_map opened.distinct inside.1 member same
    exact absurd inside.2 (Nat.lt_irrefl _)
  · obtain ⟨_, _, _, _, _, _, _, _, _, _, shape⟩ := opened.created version member
    rw [shape] at expired
    cases expired

/-- Requests on joins keep the stored joins in order in every run, and answer truly. -/
theorem joins_run {start config : Config (joinService deps forward)}
    {log : List (Answer (joinService deps forward))} (idle : start.Idle)
    (opened : Opened deps start.store) (run : Run (fun _ _ => True) start log config) :
    JoinsInvariant deps forward log config.store :=
  (joinContract_holds.run idle ⟨opened.kept, by simp, .nil⟩ run).invariant

end Khala.AgentJoin
