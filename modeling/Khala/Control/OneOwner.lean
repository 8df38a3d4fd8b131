import Khala.Control.CredentialsOnce

/-! A join belongs to the first principal who takes it, and to no other. -/

namespace Khala.AgentJoin

open Js Concurrent

variable {deps : JoinDeps} {forward : Bool}

/-- The principal for whom a call confirms a join. -/
def JoinCall.confirms : JoinCall → Option (Text × Text)
  | .confirm joinId principal _ => some (joinId, principal.ownerId)
  | .humanRequest true joinId principal => some (joinId, principal.ownerId)
  | _ => none

/-- The response to a call that confirms. -/
def responseOf : (call : JoinCall) → call.Reply → Option JoinResponse
  | .confirm _ _ _, response => some response
  | .humanRequest _ _ _, response => some response
  | _, _ => none

/-- A write keeps the owner once there is one. -/
theorem Moves.owner_kept {old new : JoinRecord} {transition : Transition}
    (moves : Moves deps old new transition) {ownerId : Text} (own : old.ownerId = some ownerId) :
    new.ownerId = some ownerId := by
  cases moves with
  | expire was set => subst set; exact own
  | owner _ was free set => exact absurd (free.symm.trans own) nofun
  | name _ was held state kept => exact kept.trans (held.symm.trans own)
  | confirm _ was held state kept agent => exact kept.trans (held.symm.trans own)
  | claim was set => subst set; exact own
  | ready was set => subst set; exact own

/-- A later version of a join keeps the owner of an earlier one. -/
theorem Kept.owner_lasts {world : JoinWorld} (kept : Kept deps forward world)
    {first second : JoinVersion} (one : first ∈ world.versions) (two : second ∈ world.versions)
    (same : first.key = second.key) (order : first.etag ≤ second.etag) {ownerId : Text}
    (own : first.data.ownerId = some ownerId) :
    second.data.ownerId = some ownerId :=
  kept.chained.related (fun old new => ∀ ownerId, old.ownerId = some ownerId →
    new.ownerId = some ownerId)
    (fun _ _ own => own) (fun one two ownerId own => two ownerId (one ownerId own))
    (fun _ _ _ permitted _ own => permitted.moves.owner_kept own) one two same order ownerId own

/-- Two versions of a join that have owners have the same one. -/
theorem Kept.same_owner {world : JoinWorld} (kept : Kept deps forward world)
    {first second : JoinVersion} (one : first ∈ world.versions) (two : second ∈ world.versions)
    (same : first.key = second.key) {ownerId other : Text} (own : first.data.ownerId = some ownerId)
    (own' : second.data.ownerId = some other) :
    ownerId = other := by
  rcases Nat.le_total first.etag second.etag with order | order
  · exact Option.some.inj ((kept.owner_lasts one two same order own).symm.trans own')
  · exact Option.some.inj (own.symm.trans (kept.owner_lasts two one same.symm order own'))

/-- A call that acts for somebody else than the owner at most marks a join whose time is over. -/
theorem Kept.foreign_write {world : JoinWorld} (kept : Kept deps forward world)
    {version old : JoinVersion} (member : version ∈ world.versions)
    (found : world.register.replaced version = some old) {ownerId other : Text}
    (own : old.data.ownerId = some ownerId) {tag : Nat} {call : JoinCall}
    (caller : version.author.caller = some (tag, call)) (acts : call.principal = some other)
    (apart : other ≠ ownerId) :
    old.data.state = .pending ∧ version.data = { old.data with state := .expired }
      ∧ (forward = true → version.data.expiresAt ≤ world.now) := by
  rcases kept.chained.versions version member with ⟨absent, -⟩ | ⟨before, same, permitted⟩
  · rw [absent] at found
    cases found
  obtain rfl := Option.some.inj (same.symm.trans found)
  obtain ⟨moves, named⟩ := permitted
  have due := kept.versionsDue version member
  -- A confirming write would store the one it acts for, and the agent's own steps act for nobody.
  have stored := moves.owner_kept own
  have foreign : ∀ actor, version.author.operation.transition.actor version.data = some actor →
      actor = some other := fun actor shape => (named actor shape tag call caller).symm.trans acts
  generalize version.author.operation.transition = transition at moves foreign
  cases moves with
  | expire was set => exact ⟨was, set, fun ahead => due ahead (by rw [set])⟩
  | owner => exact absurd (Option.some.inj ((foreign _ rfl).symm.trans stored)) apart
  | name => exact absurd (Option.some.inj ((foreign _ rfl).symm.trans stored)) apart
  | confirm => exact absurd (Option.some.inj ((foreign _ rfl).symm.trans stored)) apart
  | claim => exact absurd (foreign _ rfl) nofun
  | ready => exact absurd (foreign _ rfl) nofun

/-- In every run a join keeps its first owner; a call for anyone else writes at most the mark that
the time of the pending join is over, and its confirmation is refused; and a confirmed join names
the agent of its owner. -/
theorem one_owner {start config : Config (joinService deps forward)}
    {log : List (Answer (joinService deps forward))} (idle : start.Idle)
    (opened : Opened deps start.store) (run : Run (fun _ _ => True) start log config) :
    (∀ first ∈ config.store.versions, ∀ second ∈ config.store.versions, first.key = second.key →
      first.etag ≤ second.etag → ∀ ownerId, first.data.ownerId = some ownerId →
      second.data.ownerId = some ownerId) ∧
    (∀ version ∈ config.store.versions, ∀ old, config.store.register.replaced version = some old →
      ∀ ownerId other tag call, old.data.ownerId = some ownerId →
      version.author.caller = some (tag, call) →
        call.principal = some other → other ≠ ownerId →
        old.data.state = .pending ∧ version.data = { old.data with state := .expired }
          ∧ (forward = true → version.data.expiresAt ≤ config.store.now)) ∧
    (∀ answer ∈ log, ∀ joinId other response, answer.call.confirms = some (joinId, other) →
      responseOf answer.call answer.reply = some response →
      ∀ version ∈ config.store.versions, version.key = joinId → ∀ ownerId,
        version.data.ownerId = some ownerId →
        other ≠ ownerId → forward = true → Refused response) ∧
    ∀ version ∈ config.store.versions, Settled deps version.data := by
  have holds := joins_run idle opened run
  refine ⟨fun first one second two same order ownerId own =>
    ?_, fun version member old found ownerId other tag call own
    caller acts apart => holds.kept.foreign_write member found own caller acts apart, ?_,
    fun version member => holds.kept.settled member⟩
  · exact holds.kept.owner_lasts one two same order own
  · intro answer member joinId other response confirms responds version inside key ownerId
      own apart ahead
    -- The answer tells that the join has belonged to the one it confirmed for, or it refuses.
    have outcome : Outcome forward joinId other response config.store := by
      have told := holds.answers answer member
      obtain ⟨tag, call, reply⟩ := answer
      cases call with
      | confirm =>
        cases confirms
        cases responds
        exact told
      | humanRequest mutation =>
        cases mutation with
        | false => cases confirms
        | true =>
          cases confirms
          cases responds
          exact told rfl
      | poll => cases confirms
      | ready => cases confirms
      | autoConfirm => cases confirms
    rcases outcome with ⟨owned, inside', key', own'⟩ | refused
    · exact absurd (holds.kept.same_owner inside' inside (key'.trans key.symm) own' own) apart
    · exact refused ahead

/-! ## A confirmation by somebody else after the time is over -/

/-- The first confirmation fails once the agent is named; the second comes from another principal.
-/
private def twoConfirmations : Config (joinService plainDeps true) where
  store := plainWorld
  threads
    | 0 => .idle (.perform (.confirm plainJoinId ⟨[2], []⟩ none) fun _ => .done ())
    | 1 => .idle (.perform (.confirm plainJoinId ⟨[3], []⟩ none) fun _ => .done ())
    | _ => .idle (.done ())
  next := 0

/-- Answers with which everything succeeds but the sealing of credentials. -/
private def unsealing : (question : Question) → Option question.Reply
  | .sealCredentials _ _ => none
  | question => agreeable question

/-- No call has begun. -/
private theorem twoConfirmations_idle : twoConfirmations.Idle
  | 0 => ⟨_, rfl⟩
  | 1 => ⟨_, rfl⟩
  | _ + 2 => ⟨_, rfl⟩

/-- A run in which the two principals confirm one after the other, the second to no avail. -/
theorem one_owner_refused : ∃ log config, Run (fun _ _ => True) twoConfirmations log config ∧
    (∃ version ∈ config.store.versions, version.key = plainJoinId
      ∧ version.data.ownerId = some [2]) ∧
    ∃ view, (⟨1, .confirm plainJoinId ⟨[3], []⟩ none, .view view⟩ :
      Answer (joinService plainDeps true)) ∈ log ∧
      Refused (.view view) := by
  have ran : ∃ log config view, execute (fun _ _ => true) twoConfirmations
      (Move.start 0 :: steps true 0 1 22 unsealing ++ .outside (.clock 600000) :: .start 1
        :: steps true 1 40 8 agreeable)
        = some (log, config)
      ∧ (⟨1, .confirm plainJoinId ⟨[3], []⟩ none, .view view⟩ :
        Answer (joinService plainDeps true)) ∈ log
      ∧ ∃ version ∈ config.store.versions, version.key = plainJoinId
      ∧ version.data.ownerId = some [2] :=
    ⟨_, _, _, rfl, List.mem_cons_of_mem _ List.mem_cons_self, _, List.mem_cons_self, rfl, rfl⟩
  obtain ⟨log, config, view, done, answered, version, member, key, own⟩ := ran
  have run := (Run.of_execute done).mono fun _ _ _ => trivial
  refine ⟨log, config, run, ⟨version, member, key, own⟩, view, answered, ?_⟩
  exact (one_owner twoConfirmations_idle plainWorld_opened run).2.2.1 _ answered plainJoinId [3] _
    rfl rfl version member
    key [2] own (by decide) rfl

/-- A confirmation that begins when the join belongs to somebody else may neither be answered with
an error nor leave the join as it was. -/
theorem later_confirmation_expires :
    ¬ ∀ (deps : JoinDeps) (start before after : Config (joinService deps true))
    (earlier later : List (Answer (joinService deps true))), start.Idle → Opened deps start.store →
    Run (fun _ _ => True) start earlier before → before.Idle →
    Run (fun _ _ => True) before later after →
    ∀ tag joinId principal approvedUsername response,
    (⟨tag, .confirm joinId principal approvedUsername, response⟩ :
      Answer (joinService deps true)) ∈ later →
    ∀ version ∈ before.store.versions, version.key = joinId →
    ∀ ownerId, version.data.ownerId = some ownerId → principal.ownerId ≠ ownerId →
    (∃ status code, response = .error status code) ∨
      ∀ version ∈ after.store.versions, version.author.caller.map (·.1) = some tag →
      version ∈ before.store.versions := by
  intro claimed
  -- A join is confirmed for one owner, the clock moves past its end, and another owner confirms.
  have ran : ∃ earlier before, execute (fun _ _ => true) twoConfirmations
      (Move.start 0 :: steps true 0 1 22 unsealing ++ [.outside (.clock 600000)])
        = some (earlier, before)
      ∧ before.Idle
      ∧ (∃ version ∈ before.store.versions, version.key = plainJoinId
        ∧ version.data.ownerId = some [2])
      ∧ (∀ version ∈ before.store.versions, version.author.caller.map (·.1) ≠ some 1)
      ∧ ∃ later after view,
        execute (fun _ _ => true) before (.start 1 :: steps true 1 40 8 agreeable)
          = some (later, after)
        ∧ (⟨1, .confirm plainJoinId ⟨[3], []⟩ none, .view view⟩ :
          Answer (joinService plainDeps true)) ∈ later
        ∧ ∃ version ∈ after.store.versions, version.author.caller.map (·.1) = some 1 := by
    refine ⟨_, _, rfl, fun
      | 0 => ⟨_, rfl⟩
      | 1 => ⟨_, rfl⟩
      | _ + 2 => ⟨_, rfl⟩,
        ⟨_, List.mem_cons_self, rfl, rfl⟩, by decide, _, _, _, rfl, List.mem_cons_self,
      _, List.mem_cons_self, rfl⟩
  -- The second answer is a view, and the join has a version of its making.
  obtain ⟨earlier, before, done, idle, ⟨version, member, key, own⟩, unwritten, later, after, view,
    done', answered,
    mark, added, marked⟩ := ran
  have run := (Run.of_execute done).mono fun _ _ _ => trivial
  have run' := (Run.of_execute done').mono fun _ _ _ => trivial
  rcases claimed plainDeps _ _ _ _ _ twoConfirmations_idle plainWorld_opened run idle run' 1
    plainJoinId ⟨[3], []⟩ none _
    answered version member key [2] own (by decide) with ⟨status, code, shape⟩ | unchanged
  -- An answer that is a view is no error.
  · cases shape
  -- The version of the second confirmation was not there before.
  · exact unwritten mark (unchanged mark added marked) marked

end Khala.AgentJoin
