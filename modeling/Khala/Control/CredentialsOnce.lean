import Khala.Control.JoinAnswers

/-! The credentials of a join are handed out at most once, and its state only moves forward. -/

namespace Khala.AgentJoin

open Js Concurrent

variable {deps : JoinDeps} {forward : Bool}

/-- The steps that the state of a join can take. -/
inductive JoinState.Next : JoinState → JoinState → Prop
  | confirm : Next .pending .confirmed
  | claim : Next .confirmed .claimed
  | ready : Next .claimed .ready
  | expirePending : Next .pending .expired
  | expireConfirmed : Next .confirmed .expired

/-- How far along a state is. -/
def JoinState.rank : JoinState → Nat
  | .pending => 0
  | .confirmed => 1
  | .claimed => 2
  | .ready => 3
  | .expired => 4

/-- Each state of a join has a higher rank than the one before. -/
theorem JoinState.Next.rank_lt {old new : JoinState} (next : old.Next new) :
    old.rank < new.rank := by
  cases next <;> decide

/-- A write leaves the state of a join or moves it one step on. -/
theorem Moves.state {old new : JoinRecord} {transition : Transition}
    (moves : Moves deps old new transition) :
    new.state = old.state ∨ old.state.Next new.state := by
  cases moves with
  | expire was set => subst set; exact Or.inr (was ▸ .expirePending)
  | owner ownerId was free set => subst set; exact Or.inl rfl
  | name ownerId was own state kept => exact Or.inl (state.trans was.symm)
  | confirm ownerId was own state kept agent => rw [was, state]; exact Or.inr .confirm
  | claim was set => subst set; exact Or.inr (was ▸ .claim)
  | ready was set => subst set; exact Or.inr (was ▸ .ready)

/-- No move of a join lowers its rank. -/
theorem Moves.rank_le {old new : JoinRecord} {transition : Transition}
    (moves : Moves deps old new transition) :
    old.state.rank ≤ new.state.rank := by
  rcases moves.state with same | next
  · rw [same]
  · exact Nat.le_of_lt next.rank_lt

/-- Only a confirmed join becomes a claimed one. -/
theorem Moves.of_claimed {old new : JoinRecord} {transition : Transition}
    (moves : Moves deps old new transition) (claimed : new.state = .claimed) :
    old.state = .confirmed := by
  -- A claim comes from the step before, or from a join claimed already.
  rcases moves.state with same | next
  · -- No write leaves a claimed join claimed.
    cases moves with
    | expire was set => subst set; cases claimed
    | owner ownerId was free set => subst set; exact absurd (was.symm.trans claimed) nofun
    | name ownerId was own state kept => exact absurd (state.symm.trans claimed) nofun
    | confirm ownerId was own state kept agent => exact absurd (state.symm.trans claimed) nofun
    | claim was set => exact was
    | ready was set => subst set; cases claimed
  -- It comes from the step before, which is a confirmed join.
  · rw [claimed] at next
    generalize old.state = state at next ⊢
    cases next
    rfl

/-- A join is claimed once: the version before the second claim would be claimed already. -/
theorem Kept.claimed_unique {world : JoinWorld} (kept : Kept deps forward world)
    {first second : JoinVersion} (one : first ∈ world.versions) (two : second ∈ world.versions)
    (same : first.key = second.key) (claimed : first.data.state = .claimed)
    (claimed' : second.data.state = .claimed) : first = second := by
  -- Two claims of one join: the later one would replace a claimed join.
  have ordered : ∀ {first second : JoinVersion}, first ∈ world.versions → second ∈ world.versions →
      first.key = second.key → first.data.state = .claimed → second.data.state = .claimed →
      ¬ first.etag < second.etag := by
    intro first second one two same claimed claimed' earlier
    rcases kept.chained.versions second two with ⟨absent, -⟩ | ⟨old, found, permitted⟩
    · exact Register.replaced_ne_none one same earlier absent
    -- What it replaces lies between, and has come at least as far.
    · obtain ⟨inside, oldKey, -⟩ := Register.replaced_eq_some found
      have between := kept.chained.related (fun old new => old.state.rank ≤ new.state.rank)
        (fun _ => Nat.le_refl _) Nat.le_trans (fun _ _ _ permitted =>
          permitted.moves.rank_le) one inside
        (same.trans oldKey.symm) (Register.replaced_le found one same earlier)
      rw [claimed, permitted.moves.of_claimed claimed'] at between
      exact absurd between (by decide)
  -- Neither is the later one, so they are one version.
  have here := ordered one two same claimed claimed'
  have there := ordered two one same.symm claimed' claimed
  exact Versions.eq_of_etag one two (Nat.le_antisymm (Nat.not_lt.mp there) (Nat.not_lt.mp here))

/-- A claimed or ready join holds no credentials any more. -/
theorem Kept.unsealed {world : JoinWorld} (kept : Kept deps forward world) {version : JoinVersion}
    (member : version ∈ world.versions)
    (taken : version.data.state = .claimed ∨ version.data.state = .ready) :
    version.data.sealedCredentials = none := by
  -- No version that is claimed or ready has its credentials, from the first write on.
  refine kept.chained.all (fun _ record => record.state = .claimed ∨ record.state = .ready →
    record.sealedCredentials = none) ?_ ?_ version member taken
  · rintro _ record ⟨_, _, _, _, _, _, _, _, _, _, rfl⟩ _
    rfl
  -- Each move keeps that, or leads to another state.
  · intro _ old author new held permitted taken
    obtain ⟨moves, -⟩ := permitted
    generalize author.operation.transition = transition at moves
    cases moves with
    | expire was set => subst set; simp at taken
    | owner ownerId was free set => subst set; simp [was] at taken
    | name ownerId was own state kept => simp [state] at taken
    | confirm ownerId was own state kept agent => simp [state] at taken
    | claim was set => subst set; rfl
    | ready was set => subst set; exact held (Or.inl was)

/-- Whether an answer hands out the credentials of the join. -/
def handsOut (joinId : Text) (answer : Answer (joinService deps forward)) : Bool :=
  match answer with
  | ⟨_, .poll request, .credentials _⟩ => request.joinId = some joinId
  | _ => false

/-- Of the answers given so far at most one hands out the credentials of a join. -/
theorem JoinsInvariant.handsOut_once {log : List (Answer (joinService deps forward))}
    {world : JoinWorld} (holds : JoinsInvariant deps forward log world) (joinId : Text) :
    (log.filter (handsOut joinId)).length ≤ 1 := by
  -- Each of them rests on a version that its own call claimed.
  have claims : ∀ answer ∈ log, handsOut joinId answer = true → ∃ version ∈ world.versions,
    version.key = joinId
      ∧ version.data.state = .claimed ∧ ∃ call,
        version.author.caller = some (answer.tag, call) := by
    intro answer member carries
    have told := holds.answers answer member
    obtain ⟨tag, call, reply⟩ := answer
    cases call with
    | poll request =>
      cases reply with
      | credentials credentials =>
        obtain ⟨named, revision, record, same, claimed, version, inside, key, -, rfl, caller, -⟩ :=
          told credentials rfl
        obtain rfl : named = joinId := by
          simp only [handsOut, same, Option.some.injEq, decide_eq_true_eq] at carries
          exact carries
        exact ⟨version, inside, key, claimed, _, caller⟩
      | error => cases carries
      | view => cases carries
      | polled => cases carries
      | empty => cases carries
    | ready => cases carries
    | confirm => cases carries
    | humanRequest => cases carries
    | autoConfirm => cases carries
  have apart := holds.apart.filter (handsOut joinId)
  have within : ∀ answer ∈ log.filter (handsOut joinId), answer ∈ log
    ∧ handsOut joinId answer = true :=
    fun answer member => List.mem_filter.mp member
  match shape : log.filter (handsOut joinId) with
  | [] => exact Nat.zero_le 1
  | [_] => exact Nat.le_refl 1
  | first :: second :: rest =>
    -- Two of them would have claimed one and the same version.
    rw [shape] at apart within
    obtain ⟨one, oneMember, oneKey, oneClaimed, oneCall, oneCaller⟩ :=
      claims first (within first (by simp)).1 (within first (by simp)).2
    obtain ⟨two, twoMember, twoKey, twoClaimed, twoCall, twoCaller⟩ :=
      claims second (within second (by simp)).1 (within second (by simp)).2
    obtain rfl :=
      holds.kept.claimed_unique oneMember twoMember (oneKey.trans twoKey.symm) oneClaimed twoClaimed
    rw [oneCaller, Option.some.injEq, Prod.mk.injEq] at twoCaller
    exact absurd twoCaller.1 ((List.pairwise_cons.mp apart).1 second (by simp))

/-- In every run at most one poll is answered with the credentials of a join, the state of a join
only moves forward, and no claimed or ready record holds credentials. -/
theorem credentials_once {start config : Config (joinService deps forward)}
    {log : List (Answer (joinService deps forward))} (idle : start.Idle)
    (opened : Opened deps start.store) (run : Run (fun _ _ => True) start log config) :
    (∀ joinId, (log.filter (handsOut joinId)).length ≤ 1) ∧
    (∀ version ∈ config.store.versions, ∀ old, config.store.register.replaced version = some old →
      version.data.state = old.data.state ∨ old.data.state.Next version.data.state) ∧
    ∀ version ∈ config.store.versions, version.data.state = .claimed ∨ version.data.state = .ready →
      version.data.sealedCredentials = none := by
  have holds := joins_run idle opened run
  refine ⟨holds.handsOut_once, fun version member old found => ?_, fun version member =>
    holds.kept.unsealed member⟩
  rcases holds.kept.chained.versions version member with ⟨absent, -⟩ | ⟨other, same, permitted⟩
  · rw [absent] at found
    cases found
  · obtain rfl := Option.some.inj (same.symm.trans found)
    exact permitted.moves.state

/-! ## A join that is confirmed and polled -/

/-- Functions simple enough to be evaluated. -/
def plainDeps : JoinDeps where
  validateAgentName := some
  hashPollSecret := fun _ => List.replicate 64 97
  sessionDigest := fun _ _ sessionId _ => sessionId
  agentUserId := fun identityId ownerId => identityId ++ ownerId
  openCredentials := fun _ _ => some ⟨[], [], [], [], [], none⟩
  openInvite := fun _ inviteRef => some inviteRef
  freeAgentName := fun _ _ _ label => label

def plainJoinId : Text := List.replicate 22 97

/-- A request to join at time zero. -/
def plainJoin : JoinRecord :=
  newJoinRecord plainDeps plainJoinId [] [1] [1] [97] [97, 97] 0 none none [1] [1]

/-- One join, just created. -/
def plainWorld : JoinWorld where
  register := ⟨Versions.empty.put plainJoinId plainJoin ⟨⟨plainJoinId, .create, 0⟩, none⟩, []⟩
  drawn := [(0, none)]
  now := 0

/-- The plain world is one to begin with. -/
theorem plainWorld_opened : Opened plainDeps plainWorld where
  created := by
    intro version member
    obtain rfl := List.mem_singleton.mp member
    exact ⟨_, _, _, _, _, _, _, _, _, _, rfl⟩
  distinct := List.nodup_singleton _
  drawn := by
    intro version member
    obtain rfl := List.mem_singleton.mp member
    exact List.mem_singleton.mpr rfl
  numbers := List.nodup_singleton _
  late := rfl

/-- Answers with which everything succeeds. -/
def agreeable : (question : Question) → Option question.Reply
  | .inspectMembership _ _ => some .joined
  | .nameReservation _ => some .absent
  | .releaseName _ _ => some (.applied 0 ())
  | .usernameOf _ _ _ => some (some [1])
  | .rememberApproval _ _ _ _ => some true
  | .rejoinApproval _ => some .absent
  | .revokeApproval _ _ => some (.applied 0 ())
  | .setAgentRemoved _ _ _ => some true
  | .agentRemoved _ _ => some (some false)
  | .agentOwner _ => some .absent
  | .writeAgentOwner owner => some (.applied 0 owner)
  | .roomMemberNames _ _ => some (some [])
  | .readRoomRemovals _ => some (some none)
  | .rememberRoomAgent _ _ _ => some true
  | .provision joinId _ ownerId _ roomId =>
    some (some ⟨[], plainDeps.agentUserId joinId ownerId, [], [], roomId, none⟩)
  | .rememberAgentSession _ _ => some true
  | .revokeAgentSession _ _ => some true
  | .sealCredentials _ _ => some [1]
  | .indexOwnerAgent _ _ => some ()
  | .inviteAgent _ _ _ => some true
  | .admissionFor _ => some true
  | .invite _ _ _ _ => some none
  | .readApproveJoins _ => some none

/-- A client takes a number of steps of its call; each step has a random number of its own at hand.
-/
def steps (forward : Bool) (thread first count : Nat)
    (answer : (question : Question) → Option question.Reply) :
    List (Move (joinService plainDeps forward)) :=
  (List.range' first count).map fun random => .effect thread ⟨.answered, random, answer⟩

/-- The client confirms the join and the agent polls it. -/
private def confirmedAndPolled : Config (joinService plainDeps false) where
  store := plainWorld
  threads
    | 0 => .idle (.perform (.confirm plainJoinId ⟨[2], []⟩ none) fun _ => .done ())
    | 1 => .idle (.perform (.poll ⟨[(lit "joinId", plainJoinId)], some []⟩) fun _ => .done ())
    | _ => .idle (.done ())
  next := 0

/-- A join that was confirmed and polled has its credentials handed out once. -/
theorem credentials_once_polled : ∃ log config,
    Run (fun _ _ => True) confirmedAndPolled log config
      ∧ (log.filter (handsOut plainJoinId)).length = 1 ∧
      (∀ joinId, (log.filter (handsOut joinId)).length ≤ 1) := by
  have ran : ∃ log config, execute (fun _ _ => true) confirmedAndPolled
      (Move.start 0 :: steps false 0 1 27 agreeable ++ Move.start 1 :: steps false 1 40 4 agreeable)
        = some (log, config)
      ∧ (log.filter (handsOut plainJoinId)).length = 1 :=
    ⟨_, _, rfl, rfl⟩
  obtain ⟨log, config, done, handed⟩ := ran
  have idle : confirmedAndPolled.Idle
    | 0 => ⟨_, rfl⟩
    | 1 => ⟨_, rfl⟩
    | thread + 2 => ⟨_, rfl⟩
  have run := (Run.of_execute done).mono fun _ _ _ => trivial
  exact ⟨log, config, run, handed, (credentials_once idle plainWorld_opened run).1⟩

end Khala.AgentJoin
