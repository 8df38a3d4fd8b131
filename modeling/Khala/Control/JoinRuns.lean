import Khala.Control.JoinRoutes
import Khala.Concurrent.Contract

/-! Requests on joins that run among others: what each of them does to the stored records. -/

namespace Khala.AgentJoin

open Js Concurrent

variable (deps : JoinDeps)

/-! ## The service -/

inductive JoinCall
  | poll (request : AgentRequest)
  | ready (request : AgentRequest)
  | confirm (joinId : Text) (principal : Principal) (approvedUsername : Option Text)
  | humanRequest (mutation : Bool) (joinId : Text) (principal : Principal)
  | autoConfirm (joinId : Text) (approval : Lookup RejoinApproval)

abbrev JoinCall.Reply : JoinCall → Type
  | autoConfirm _ _ => Bool
  | _ => JoinResponse

abbrev joinCalls : Interface := ⟨JoinCall, JoinCall.Reply⟩

/-- The principal in whose name a call confirms. -/
def JoinCall.principal : JoinCall → Option Text
  | .confirm _ principal _ => some principal.ownerId
  | .humanRequest _ _ principal => some principal.ownerId
  | .autoConfirm _ (.record (some grant)) => some grant.ownerId
  | _ => none

def JoinCall.body : (call : JoinCall) → JoinProgram call.Reply
  | .poll request => AgentJoin.poll deps request
  | .ready request => AgentJoin.ready deps request
  | .confirm joinId principal approvedUsername =>
    AgentJoin.confirm deps joinId principal approvedUsername
  | .humanRequest mutation joinId principal => AgentJoin.humanRequest deps mutation joinId principal
  | .autoConfirm joinId approval => AgentJoin.autoConfirm deps joinId approval

/-- The call that makes a write, under its number; none for the request that created the join. -/
abbrev Caller := Option (Nat × JoinCall)

abbrev JoinVersion := Version Text JoinRecord (Author JoinOperation Caller)

abbrev JoinWrite := Write Text JoinRecord JoinOperation Caller

/-- The stored joins, the random numbers drawn so far with who drew them, and the clock. -/
structure JoinWorld where
  register : Register Text JoinRecord JoinOperation Caller
  drawn : List (Nat × Caller)
  now : Int

/-- A record reads as absent from its expiry in the store on. -/
def JoinWorld.live (world : JoinWorld) (record : JoinRecord) : Bool :=
  world.now < record.createdAt + JOIN_RETENTION_MS

/-- All versions of all joins. -/
abbrev JoinWorld.versions (world : JoinWorld) : List JoinVersion := world.register.versions.list

/-- What the outside decides about an operation. -/
structure JoinChoice where
  fate : Fate
  random : Nat
  answer : (question : Question) → Option question.Reply

/-- Operations as the contract of the store has them. A random number is never drawn twice. -/
def execJoins (tag : Nat) (call : JoinCall) : Semantics joinEffects JoinChoice JoinWorld
  | .read joinId, choice, world => some (world.register.read world.live joinId choice.fate, world)
  | .compareAndSet input, choice, world =>
    let write :=
  ⟨input.joinId, input.expectedRevision, ⟨input.operationId, some (tag, call)⟩, input.next⟩
    -- Each call has a write of its own, whose fate the provider chooses.
    let (reply, register) := world.register.compareAndSet world.live write choice.fate
    some (reply, { world with register := register })
  | .resolve joinId operationId, choice, world =>
    let (reply, register) := world.register.resolve joinId operationId choice.fate
    some (reply, { world with register := register })
  | .clock, _, world => some (world.now, world)
  -- A random number comes up once.
  | .random, choice, world =>
    if choice.random ∈ world.drawn.map (·.1) then none
    else some (choice.random,
      { world with drawn := (choice.random, some (tag, call)) :: world.drawn })
  | .ask question, choice, world => some (choice.answer question, world)

/-- The clock moves, or a write of unknown outcome lands. -/
inductive JoinEvent
  | clock (now : Int)
  | land (index : Nat)

/-- The service; with a forward clock the time never goes back. -/
def joinService (forward : Bool) : Service where
  Calls := joinCalls
  Effects := joinEffects
  Store := JoinWorld
  Choice := JoinChoice
  body := JoinCall.body deps
  exec := execJoins
  Event := JoinEvent
  outside
    -- The clock goes forward where this is asked for.
    | .clock now, world => if forward = true ∧ now < world.now then none
      else some { world with now := now }
    -- An open write lands later.
    | .land index, world =>
      (world.register.land world.live index).map fun register => { world with register := register }

/-! ## What a write may do -/

/-- How one version of a record follows another. -/
inductive Moves (old new : JoinRecord) : Transition → Prop
  | expire (was : old.state = .pending) (set : new = { old with state := .expired }) :
  Moves old new .expire
  | owner (ownerId : Text) (was : old.state = .pending) (free : old.ownerId = none)
      (set : new = { old with ownerId := some ownerId }) : Moves old new .owner
  | name (ownerId : Text) (was : old.state = .pending) (own : old.ownerId = some ownerId)
      (state : new.state = .pending) (kept : new.ownerId = some ownerId) : Moves old new .name
  | confirm (ownerId : Text) (was : old.state = .pending) (own : old.ownerId = some ownerId)
      (state : new.state = .confirmed) (kept : new.ownerId = some ownerId)
      (agent : new.agentUserId = some (deps.agentUserId (identityOf deps new) ownerId)) :
      Moves old new .confirm
  | claim (was : old.state = .confirmed)
      (set : new = { old with state := .claimed, sealedCredentials := none }) : Moves old new .claim
  | ready (was : old.state = .claimed) (set : new = { old with state := .ready }) :
  Moves old new .ready

/-- For whom a step of a join is made: a confirmation for the owner it stores, the agent's own steps
for nobody. Anyone may find that the time of a join is over. -/
def Transition.actor (new : JoinRecord) : Transition → Option (Option Text)
  | .owner | .name | .confirm => some new.ownerId
  | .claim | .ready => some none
  | .create | .expire => none

/-- A write moves its record on, for whom the step is made. -/
structure Permitted (old : JoinRecord) (author : Author JoinOperation Caller) (new : JoinRecord) :
    Prop where
  moves : Moves deps old new author.operation.transition
  named : ∀ actor, author.operation.transition.actor new = some actor → ∀ tag call,
    author.caller = some (tag, call) → call.principal = actor

/-- A record as an agent's request to join stores it. -/
def Created (joinId : Text) (record : JoinRecord) : Prop :=
  ∃ pollSecret roomId channelName label harness now rejoinSecret sessionId sealedInvite
    creatorOwnerId,
    record = newJoinRecord deps joinId pollSecret roomId channelName label harness now
      rejoinSecret sessionId
      sealedInvite creatorOwnerId

/-- A confirmed record belongs to an owner and names that owner's agent. -/
def Settled (record : JoinRecord) : Prop :=
  record.state = .confirmed ∨ record.state = .claimed ∨ record.state = .ready →
    ∃ ownerId, record.ownerId = some ownerId ∧
      record.agentUserId = some (deps.agentUserId (identityOf deps record) ownerId)

/-- A record is marked as expired only once its time is over. -/
def Due (forward : Bool) (world : JoinWorld) (record : JoinRecord) : Prop :=
  forward = true → record.state = .expired → record.expiresAt ≤ world.now

/-- What holds of the stored joins at all times. -/
structure Kept (forward : Bool) (world : JoinWorld) : Prop where
  chained : world.register.Chained (Created deps) (Permitted deps)
  versionsDrawn : ∀ version ∈ world.versions,
    (version.author.operation.random, version.author.caller) ∈ world.drawn
  lateDrawn : ∀ write ∈ world.register.late,
    (write.author.operation.random, write.author.caller) ∈ world.drawn
  numbers : (world.drawn.map (·.1)).Nodup
  versionsDue : ∀ version ∈ world.versions, Due forward world version.data
  lateDue : ∀ write ∈ world.register.late, Due forward world write.data

/-- One world is a later state of another. -/
structure Grown (forward : Bool) (before after : JoinWorld) : Prop where
  later : before.register.versions.Later after.register.versions
  drawn : ∀ pair ∈ before.drawn, pair ∈ after.drawn
  clock : forward = true → before.now ≤ after.now

/-- What one call does: every version and every late write it adds is its own. -/
structure JoinChange (forward : Bool) (caller : Caller) (before after : JoinWorld) : Prop where
  grown : Grown forward before after
  kept : Kept deps forward before → Kept deps forward after
  versions : ∀ version ∈ after.versions, version ∈ before.versions ∨ version.author.caller = caller
  late : ∀ write ∈ after.register.late, write ∈ before.register.late ∨ write.author.caller = caller

/-- What others do while a call waits: of the call's own writes, only a late one may land. -/
structure OtherJoins (forward : Bool) (caller : Caller) (before after : JoinWorld) : Prop where
  grown : Grown forward before after
  versions : ∀ version ∈ after.versions, version.author.caller = caller →
    version ∈ before.versions ∨
    ∃ write ∈ before.register.late, version.key = write.key ∧ version.data = write.data
      ∧ version.author = write.author
  late : ∀ write ∈ after.register.late, write.author.caller = caller → write ∈ before.register.late

def joinDuty (forward : Bool) (tag : Nat) (call : JoinCall) : Duty joinEffects JoinWorld where
  rely := fun _ before after => OtherJoins forward (some (tag, call)) before after
  guarantee := JoinChange deps forward (some (tag, call))
  permits := fun _ world => Kept deps forward world

variable {deps} {forward : Bool} {tag : Nat} {call : JoinCall} {caller : Caller}

/-- Every stored record is settled: a confirmation stores the agent, and no later step touches it.
-/
theorem Kept.settled {world : JoinWorld} (kept : Kept deps forward world) {version : JoinVersion}
    (member : version ∈ world.versions) : Settled deps version.data := by
  -- The claim is shown of each version from the one it replaced.
  refine kept.chained.all (fun _ record => Settled deps record) ?_ ?_ version member
  · rintro joinId record ⟨pollSecret, roomId, channelName, label, harness, now, rejoinSecret,
      sessionId, sealedInvite,
      creatorOwnerId, rfl⟩ confirmed
    simp [newJoinRecord] at confirmed
  -- Each transition confirms the join itself, or leaves alone what confirmed it.
  · intro _ old author new held permitted confirmed
    obtain ⟨moves, -⟩ := permitted
    generalize author.operation.transition = transition at moves
    cases moves with
    | expire was set => subst set; simp at confirmed
    | owner ownerId was free set => subst set; simp [was] at confirmed
    | name ownerId was own state kept => simp [state] at confirmed
    | confirm ownerId was own state kept agent => exact ⟨ownerId, kept, agent⟩
    | claim was set => subst set; exact held (Or.inl was)
    | ready was set => subst set; exact held (Or.inr (Or.inl was))

/-- A world has grown into itself. -/
theorem Grown.refl (world : JoinWorld) : Grown forward world world :=
  ⟨.refl _, fun _ member => member, fun _ => le_refl _⟩

/-- What grew twice has grown. -/
theorem Grown.trans {first second third : JoinWorld} (one : Grown forward first second)
    (two : Grown forward second third) : Grown forward first third where
  later := one.later.trans two.later
  drawn := fun pair member => two.drawn pair (one.drawn pair member)
  clock := fun ahead => (one.clock ahead).trans (two.clock ahead)

/-- Changing nothing is a change. -/
theorem JoinChange.refl (world : JoinWorld) : JoinChange deps forward caller world world :=
  ⟨.refl _, id, fun _ member => Or.inl member, fun _ member => Or.inl member⟩

/-- Others may change nothing. -/
theorem OtherJoins.refl (world : JoinWorld) : OtherJoins forward caller world world :=
  ⟨.refl _, fun _ member _ => Or.inl member, fun _ member _ => member⟩

/-- What others changed twice, others have changed. -/
theorem OtherJoins.trans {first second third : JoinWorld}
    (one : OtherJoins forward caller first second) (two : OtherJoins forward caller second third) :
    OtherJoins forward caller first third where
  grown := one.grown.trans two.grown
  versions := by
    -- A version of the call's own was there before, or it landed in one of the two periods.
    intro version member own
    rcases two.versions version member own with old | ⟨write, inside, key, data, author⟩
    · exact one.versions version old own
    · exact Or.inr ⟨write, one.late write inside (author ▸ own), key, data, author⟩
  late := fun write member own => one.late write (two.late write member own) own

/-! ## Facts that last -/

/-- A fact about the world that stays true. -/
def Lasting (forward : Bool) (known : JoinWorld → Prop) : Prop :=
  ∀ before after, Grown forward before after → known before → known after

/-- The join has had the record under the revision. -/
def HasVersion (joinId : Text) (revision : Nat) (record : JoinRecord) (world : JoinWorld) : Prop :=
  ∃ version ∈ world.versions, version.key = joinId ∧ version.etag = revision ∧ version.data = record

/-- The call has written the record. -/
def HasWritten (tag : Nat) (call : JoinCall) (joinId : Text) (transition : Transition)
    (revision : Nat) (record : JoinRecord) (world : JoinWorld) : Prop :=
  ∃ version ∈ world.versions, version.key = joinId ∧ version.etag = revision ∧ version.data = record
    ∧ version.author.caller = some (tag, call) ∧ version.author.operation.transition = transition

/-- What was written is a version. -/
theorem HasWritten.hasVersion {joinId : Text} {transition : Transition} {revision : Nat}
    {record : JoinRecord} {world : JoinWorld}
    (written : HasWritten tag call joinId transition revision record world) :
    HasVersion joinId revision record world := by
  obtain ⟨version, member, key, number, data, -⟩ := written
  exact ⟨version, member, key, number, data⟩

/-- What always holds lasts. -/
theorem lasting_true : Lasting forward fun _ => True := fun _ _ _ _ => trivial

/-- That there is a version lasts. -/
theorem lasting_hasVersion (joinId : Text) (revision : Nat) (record : JoinRecord) :
    Lasting forward (HasVersion joinId revision record) := by
  rintro before after grown ⟨version, member, rest⟩
  exact ⟨version, grown.later.mem member, rest⟩

/-- That a call has written lasts. -/
theorem lasting_hasWritten (joinId : Text) (transition : Transition) (revision : Nat)
    (record : JoinRecord) :
    Lasting forward (HasWritten tag call joinId transition revision record) := by
  rintro before after grown ⟨version, member, rest⟩
  exact ⟨version, grown.later.mem member, rest⟩

/-- Two facts that last do so together. -/
theorem Lasting.and {first second : JoinWorld → Prop} (one : Lasting forward first)
    (two : Lasting forward second) :
    Lasting forward fun world => first world ∧ second world :=
  fun before after grown held => ⟨one before after grown held.1, two before after grown held.2⟩

/-- Where the clock goes forward a time that is past stays past. -/
theorem lasting_clock (time : Int) :
    Lasting forward fun world => forward = true → time ≤ world.now :=
  fun _ _ grown held ahead => (held ahead).trans (grown.clock ahead)

/-! ## Programs that keep their duty -/

/-- From every world in which a fact is known, the program keeps its duty and ends with its
condition. -/
def Meets (deps : JoinDeps) (forward : Bool) (tag : Nat) (call : JoinCall) {α : Type}
    (known : JoinWorld → Prop) (program : JoinProgram α) (post : α → JoinWorld → Prop) : Prop :=
  ∀ before now, known now →
    program.Safe (execJoins tag call) (joinDuty deps forward tag call)
      (fun result _ after => post result after) before now

variable {α β : Type} {known : JoinWorld → Prop}

/-- A program that is done knows what it knew. -/
theorem Meets.done {post : α → JoinWorld → Prop} (result : α)
    (held : ∀ world, known world → post result world) :
    Meets deps forward tag call known (pure result) post :=
  fun _ now have_ => held now have_

/-- Two programs in sequence meet their contracts in sequence. -/
theorem Meets.bind {first : JoinProgram α} {rest : α → JoinProgram β} {mid : α → JoinWorld → Prop}
    {post : β → JoinWorld → Prop} (one : Meets deps forward tag call known first mid)
    (two : ∀ result, Meets deps forward tag call (mid result) (rest result) post) :
    Meets deps forward tag call known (first >>= rest) post :=
  fun before now have_ =>
    Program.Safe.bind ((one before now have_).mono fun result before now held =>
    two result before now held)

/-- What is known less of is known. -/
theorem Meets.mono {program : JoinProgram α} {weaker : α → JoinWorld → Prop}
    {post : α → JoinWorld → Prop} (meets : Meets deps forward tag call known program post)
    (imp : ∀ result world, post result world → weaker result world) :
    Meets deps forward tag call known program weaker :=
  fun before now have_ => (meets before now have_).mono fun result _ after held =>
    imp result after held

/-- What is known more of before is enough. -/
theorem Meets.weaken {program : JoinProgram α} {post : α → JoinWorld → Prop}
    {stronger : JoinWorld → Prop} (meets : Meets deps forward tag call known program post)
    (imp : ∀ world, stronger world → known world) :
    Meets deps forward tag call stronger program post :=
  fun before now have_ => meets before now (imp now have_)

/-- A program under what follows from what is known. -/
theorem Meets.knowing {program : JoinProgram α} {post : α → JoinWorld → Prop}
    {stronger : JoinWorld → Prop} (known : JoinWorld → Prop)
    (imp : ∀ world, stronger world → known world)
    (meets : Meets deps forward tag call known program post) :
    Meets deps forward tag call stronger program post :=
  meets.weaken imp

/-- A first part that keeps what is known. -/
theorem Meets.seq {first : JoinProgram α} {rest : α → JoinProgram β} {post : β → JoinWorld → Prop}
    (one : Meets deps forward tag call known first fun _ => known)
    (two : ∀ result, Meets deps forward tag call known (rest result) post) :
    Meets deps forward tag call known (first >>= rest) post :=
  one.bind two

/-- A fact that does not depend on the world follows from what is known. -/
theorem Meets.of_fact {p : Prop} {program : JoinProgram α} {post : α → JoinWorld → Prop}
    (fact : ∀ world, known world → p) (meets : p → Meets deps forward tag call known program post) :
    Meets deps forward tag call known program post :=
  fun before now have_ => meets (fact now have_) before now have_

/-- An operation that leaves the world alone. -/
theorem Meets.look {op : JoinOp} {post : op.Reply → JoinWorld → Prop}
    (lasting : Lasting forward known)
    (looks : ∀ choice world reply after, Kept deps forward world → known world →
      execJoins tag call op choice world = some (reply, after) → after = world ∧ post reply world) :
    Meets deps forward tag call known (@Program.call joinEffects op) post := by
  intro before now held mid choice reply after others permitted ran
  have still := lasting _ _ others.grown held
  obtain ⟨rfl, said⟩ := looks choice mid reply after permitted still ran
  exact ⟨.refl _, said⟩

/-- A question changes nothing. -/
theorem ask_meets (lasting : Lasting forward known) (question : Question) :
    Meets deps forward tag call known (ask question) fun _ => known := by
  refine Meets.look lasting fun choice world reply after _ held ran => ?_
  simp only [execJoins, Option.some.injEq, Prod.mk.injEq] at ran
  exact ⟨ran.2.symm, held⟩

/-- The clock tells the time of the moment. -/
theorem clock_now (lasting : Lasting forward known) :
    Meets deps forward tag call known clock fun time world => known world ∧ world.now = time := by
  refine Meets.look lasting fun choice world reply after _ held ran => ?_
  simp only [execJoins, Option.some.injEq, Prod.mk.injEq] at ran
  exact ⟨ran.2.symm, held, ran.1⟩

/-- What the clock told is past from then on. -/
theorem clock_meets (lasting : Lasting forward known) :
    Meets deps forward tag call known clock fun time world =>
      known world ∧ (forward = true → time ≤ world.now) :=
  (clock_now lasting).mono fun _ _ said => ⟨said.1, fun _ => le_of_eq said.2.symm⟩

/-- A read tells a version that is settled. -/
theorem safeRead_meets (lasting : Lasting forward known) (joinId : Text) :
    Meets deps forward tag call known (safeRead joinId) fun reply world => known world ∧
      ∀ revision record, reply = .record revision record →
        HasVersion joinId revision record world ∧ Settled deps record := by
  refine Meets.look lasting fun choice world reply after kept held ran => ?_
  simp only [execJoins, Option.some.injEq, Prod.mk.injEq] at ran
  refine ⟨ran.2.symm, held, fun revision record shape => ?_⟩
  obtain ⟨version, member, key, number, rfl⟩ := Register.read_eq_record (ran.1.trans shape)
  exact ⟨⟨version, member, key, number, rfl⟩, kept.settled member⟩

/-! ## Writes -/

/-- The world with the write of a call carried out. -/
theorem Kept.settle {world : JoinWorld} (kept : Kept deps forward world) (live : JoinRecord → Bool)
    {write : JoinWrite} (sourced : Register.Sourced (Permitted deps) world.register write)
    (drawn : (write.author.operation.random, write.author.caller) ∈ world.drawn)
    (due : Due forward world write.data) :
    Kept deps forward { world with register := (world.register.settle live write).2 } where
  chained := kept.chained.settle sourced
  -- A new version comes from this write, and the old ones were drawn before.
  versionsDrawn := by
    intro version member
    rcases Register.settle_mem member with old | ⟨-, -, author⟩
    · exact kept.versionsDrawn version old
    · rw [author]; exact drawn
  lateDrawn := fun other member => kept.lateDrawn other (Register.settle_late live write ▸ member)
  numbers := kept.numbers
  -- It is due because the write is.
  versionsDue := by
    intro version member
    rcases Register.settle_mem member with old | ⟨-, data, -⟩
    · exact kept.versionsDue version old
    · rw [data]; exact due
  lateDue := fun other member => kept.lateDue other (Register.settle_late live write ▸ member)

/-- The random number of a write is used by nothing else. -/
structure Owns (write : JoinWrite) (world : JoinWorld) : Prop where
  drawn : (write.author.operation.random, write.author.caller) ∈ world.drawn
  versions : ∀ version ∈ world.versions,
    version.author.operation.random = write.author.operation.random →
    version.key = write.key ∧ version.data = write.data ∧ version.author = write.author
  late : ∀ other ∈ world.register.late,
    other.author.operation.random = write.author.operation.random → other = write

/-- Who drew a number is settled by the number. -/
theorem Kept.drawer {world : JoinWorld} (kept : Kept deps forward world) {number : Nat}
    {one two : Caller} (first : (number, one) ∈ world.drawn)
    (second : (number, two) ∈ world.drawn) : one = two :=
  congrArg Prod.snd (List.inj_on_of_nodup_map kept.numbers first second rfl)

/-- Others leave a write's number alone. -/
theorem Owns.others {write : JoinWrite} {before after : JoinWorld} (owns : Owns write before)
    (others : OtherJoins forward write.author.caller before after)
    (kept : Kept deps forward after) :
    Owns write after where
  drawn := others.grown.drawn _ owns.drawn
  versions := by
    -- The version with the number is the call's own, so it was there or landed late.
    intro version member same
    have drawn := kept.versionsDrawn version member
    rw [same] at drawn
    have own := kept.drawer drawn (others.grown.drawn _ owns.drawn)
    rcases others.versions version member own with old | ⟨other, inside, key, data, author⟩
    · exact owns.versions version old same
    · obtain rfl := owns.late other inside (author ▸ same)
      exact ⟨key, data, author⟩
  late := by
    intro other member same
    have drawn := kept.lateDrawn other member
    rw [same] at drawn
    exact owns.late other
      (others.late other member (kept.drawer drawn (others.grown.drawn _ owns.drawn))) same

/-- What a call's own write does to the world, whatever becomes of it. -/
theorem write_change {write : JoinWrite} {world : JoinWorld} (live : JoinRecord → Bool)
    (fate : Fate) (owns : Owns write world)
    (sourced : Register.Sourced (Permitted deps) world.register write)
    (due : Due forward world write.data) :
    JoinChange deps forward write.author.caller world
        { world with register := (world.register.compareAndSet live write fate).2 } ∧
      Owns write { world with register := (world.register.compareAndSet live write fate).2 } := by
  -- The write may be refused, may land, or may wait to land.
  rcases world.register.compareAndSet_cases live write fate with same | same | same
  · rw [same]
    exact ⟨.refl _, owns⟩
  · rw [same]
    -- It lands, so there is one version more, whose author is the write's.
    refine ⟨⟨⟨Register.settle_later live write, fun _ member => member, fun _ => le_refl _⟩,
      fun kept => kept.settle live sourced owns.drawn due, fun version member =>
        ?_, fun other member => ?_⟩,
      ⟨owns.drawn, fun version member number => ?_, fun other member => ?_⟩⟩
    · exact (Register.settle_mem member).imp id fun new => congrArg Author.caller new.2.2
    · exact Or.inl (Register.settle_late live write ▸ member)
    · rcases Register.settle_mem member with old | new
      · exact owns.versions version old number
      · exact new
    · exact owns.late other (Register.settle_late live write ▸ member)
  · -- The write waits to land.
    rw [same]
    refine ⟨⟨⟨.refl _, fun _ member => member, fun _ => le_refl _⟩, fun kept => ?_, fun _ member =>
      Or.inl member,
      fun other member => ?_⟩, ⟨owns.drawn, owns.versions, fun other member number => ?_⟩⟩
    -- The late writes are this one and those that waited before.
    · refine ⟨⟨kept.chained.versions, fun other member => ?_⟩, kept.versionsDrawn,
        fun other member => ?_,
        kept.numbers, kept.versionsDue, fun other member => ?_⟩ <;> rcases List.mem_cons.mp member
          with rfl | old
      · exact sourced
      · exact kept.chained.late other old
      · exact owns.drawn
      · exact kept.lateDrawn other old
      · exact due
      · exact kept.lateDue other old
    · rcases List.mem_cons.mp member with rfl | old
      · exact Or.inr rfl
      · exact Or.inl old
    · rcases List.mem_cons.mp member with rfl | old
      · rfl
      · exact owns.late other old number

/-- Looking an operation up changes nothing but late writes. -/
theorem resolve_change {world : JoinWorld} (joinId : Text) (operationId : JoinOperation)
    (fate : Fate) :
    JoinChange deps forward caller world
      { world with register := (world.register.resolve joinId operationId fate).2 } := by
  -- A resolution only takes from the late writes.
  obtain ⟨versions, late⟩ := world.register.resolve_cases joinId operationId fate
  have same : ∀ version ∈ (world.register.resolve joinId operationId fate).2.versions.list,
      version ∈ world.versions := fun version member => by rwa [versions] at member
  refine ⟨⟨Versions.later_of_eq (congrArg Versions.list versions)
    (le_of_eq (congrArg Versions.next versions).symm),
    fun _ member => member, fun _ => le_refl _⟩, fun kept => ?_, fun version member =>
      ?_, fun other member => Or.inl (late other member)⟩
  -- So each part of the invariant is about fewer writes and the same versions.
  · refine ⟨⟨fun version member => ?_, fun other member => ?_⟩, fun version member =>
      ?_, fun other member =>
      kept.lateDrawn other (late other member), kept.numbers, fun version member =>
        ?_, fun other member =>
      kept.lateDue other (late other member)⟩
    · simp only [Register.replaced, versions] at member ⊢
      exact kept.chained.versions version member
    · exact (kept.chained.late other (late other member)).mono
        (Versions.later_of_eq (congrArg Versions.list versions)
          (le_of_eq (congrArg Versions.next versions).symm))
    · exact kept.versionsDrawn version (same version member)
    · exact kept.versionsDue version (same version member)
  · exact Or.inl (same version member)

/-- A write that its call owns is carried out at most once, and an answer that it was is true. -/
theorem writeAndResolve_safe (lasting : Lasting forward known) (input : CompareAndSetJoin)
    {now : JoinWorld} (before : JoinWorld)
    (sourced : ∀ world, known world →
      Register.Sourced (Permitted deps) world.register ⟨input.joinId, input.expectedRevision,
        ⟨input.operationId, some (tag, call)⟩, input.next⟩)
    (due : ∀ world, known world → Due forward world input.next) (held : known now)
    (owns : Owns ⟨input.joinId, input.expectedRevision, ⟨input.operationId, some (tag, call)⟩,
      input.next⟩ now) :
    (writeAndResolve input).Safe (execJoins tag call) (joinDuty deps forward tag call)
      (fun reply _ after => known after ∧ ∀ revision data, reply = .applied revision data →
        HasWritten tag call input.joinId input.operationId.transition revision input.next after)
          before now := by
  -- One compare-and-set: it keeps the duty, and the number stays the call's own.
  have once : ∀ {α : Type} (rest : WriteReply JoinRecord → JoinProgram α)
    (post : α → JoinWorld → JoinWorld → Prop)
      (before now : JoinWorld), known now →
      Owns ⟨input.joinId, input.expectedRevision, ⟨input.operationId, some (tag, call)⟩,
        input.next⟩ now →
      (∀ reply before after, known after →
        Owns ⟨input.joinId, input.expectedRevision, ⟨input.operationId, some (tag, call)⟩,
          input.next⟩ after →
        (∀ revision data, reply = .applied revision data →
          HasWritten tag call input.joinId input.operationId.transition revision input.next after) →
        (rest reply).Safe (execJoins tag call) (joinDuty deps forward tag call) post before after) →
      (compareAndSet input >>= rest).Safe (execJoins tag call)
      (joinDuty deps forward tag call) post before now := by
    intro α rest post before now held owns continues mid choice reply after others permitted ran
    have still := lasting _ _ others.grown held
    have owned := owns.others others permitted
    obtain ⟨change, kept⟩ := write_change mid.live choice.fate owned (sourced mid still)
      (due mid still)
    simp only [execJoins, Option.some.injEq, Prod.mk.injEq] at ran
    obtain ⟨rfl, rfl⟩ := ran
    refine ⟨change, continues _ _ _ (lasting _ _ change.grown still) kept
      fun revision data applied => ?_⟩
    obtain ⟨version, member, key, number, written, operation⟩ :=
      Register.compareAndSet_applied applied
    refine ⟨version, member, key, number, written, ?_, by rw [operation]⟩
    rw [(kept.versions version member (by rw [operation])).2.2]
  unfold writeAndResolve
  refine once _ _ before now held owns fun reply before now held owns applied => ?_
  -- An answer is handed on as it is.
  have finish : ∀ reply : WriteReply JoinRecord, (∀ revision data, reply = .applied revision data →
      HasWritten tag call input.joinId input.operationId.transition revision input.next now) →
      (pure reply : JoinProgram _).Safe (execJoins tag call) (joinDuty deps forward tag call)
        (fun reply _ after => known after ∧ ∀ revision data, reply = .applied revision data →
          HasWritten tag call input.joinId input.operationId.transition revision input.next after)
            before now :=
    fun reply said => ⟨held, said⟩
  cases reply with
  | applied revision data => exact finish _ applied
  | conflict current => exact finish _ applied
  | operationMismatch => exact finish _ applied
  | unavailable => exact finish _ applied
  | outcomeUnknown =>
    -- The operation is looked up, and tried once more when it proves not to have landed.
    intro mid choice reply after others permitted ran
    have still := lasting _ _ others.grown held
    have owned := owns.others others permitted
    have change : JoinChange deps forward (some (tag, call)) mid
        { mid with register :=
          (mid.register.resolve input.joinId input.operationId choice.fate).2 } :=
      resolve_change input.joinId input.operationId choice.fate
    obtain ⟨versions, late⟩ := mid.register.resolve_cases input.joinId input.operationId choice.fate
    simp only [execJoins, Option.some.injEq, Prod.mk.injEq] at ran
    obtain ⟨rfl, rfl⟩ := ran
    have later := lasting _ _ change.grown still
    have kept :
      Owns ⟨input.joinId, input.expectedRevision, ⟨input.operationId, some (tag, call)⟩, input.next⟩
        { mid with register :=
          (mid.register.resolve input.joinId input.operationId choice.fate).2 } :=
      ⟨owned.drawn, fun version member =>
        owned.versions version (by rwa [JoinWorld.versions, versions] at member),
        fun other member => owned.late other (late other member)⟩
    refine ⟨change, ?_⟩
    -- The lookup tells what has become of the operation.
    cases shape : (mid.register.resolve input.joinId input.operationId choice.fate).1 with
    | applied revision data =>
      refine ⟨later, fun _ _ same => ?_⟩
      cases same
      obtain ⟨version, member, key, number, written, operation⟩ := Register.resolve_applied shape
      obtain ⟨-, data, author⟩ := owned.versions version member (by rw [operation])
      refine ⟨version, ?_, key, number, data, by rw [author], by rw [operation]⟩
      rwa [JoinWorld.versions, versions]
    | notApplied =>
      have again :=
        once (fun reply => pure reply) (fun reply _ after => known after ∧ ∀ revision data,
        reply = .applied revision data →
          HasWritten tag call input.joinId input.operationId.transition revision input.next after)
        mid _ later kept fun reply before after held _ applied => ⟨held, applied⟩
      exact again
    | outcomeUnknown => exact ⟨later, fun _ _ same => by cases same⟩
    | unavailable => exact ⟨later, fun _ _ same => by cases same⟩

/-- Drawing a number that nothing uses yet. -/
theorem draw_change {world : JoinWorld} {number : Nat} (fresh : number ∉ world.drawn.map (·.1)) :
    JoinChange deps forward caller world { world with
      drawn := (number, caller) :: world.drawn } := by
  refine ⟨⟨.refl _, fun pair member => List.mem_cons_of_mem _ member, fun _ => le_refl _⟩,
    fun kept => ?_,
    fun _ member => Or.inl member, fun _ member => Or.inl member⟩
  exact ⟨kept.chained, fun version member =>
    List.mem_cons_of_mem _ (kept.versionsDrawn version member),
    fun write member => List.mem_cons_of_mem _ (kept.lateDrawn write member),
    List.nodup_cons.mpr ⟨fresh, kept.numbers⟩, kept.versionsDue, kept.lateDue⟩

/-- Replacing a record that the join has had by one that it may move to. -/
theorem replace_meets (lasting : Lasting forward known) {joinId : Text} {revision : Nat}
    {next : JoinRecord} {transition : Transition}
    (source : ∀ world, known world → ∃ old, HasVersion joinId revision old world
      ∧ Moves deps old next transition)
    (named : ∀ actor, transition.actor next = some actor → call.principal = actor)
    (due : ∀ world, known world → Due forward world next) :
    Meets deps forward tag call known (replace joinId (some revision) next transition)
      fun reply world =>
      known world ∧ ∀ revision, reply = .applied revision →
        HasWritten tag call joinId transition revision next world := by
  intro before now held mid choice reply after others permitted ran
  -- The number is new, so no version and no late write has it.
  simp only [execJoins] at ran
  split at ran
  · cases ran
  rename_i fresh
  simp only [Option.some.injEq, Prod.mk.injEq] at ran
  obtain ⟨rfl, rfl⟩ := ran
  have change : JoinChange deps forward (some (tag, call)) mid
      { mid with drawn := (choice.random, some (tag, call)) :: mid.drawn } := draw_change fresh
  have still := lasting _ _ change.grown (lasting _ _ others.grown held)
  refine ⟨change, ?_⟩
  have unused : ∀ caller, (choice.random, caller) ∉ mid.drawn := fun caller member =>
    fresh (List.mem_map.mpr ⟨_, member, rfl⟩)
  have owns :
    Owns ⟨joinId, some revision, ⟨⟨joinId, transition, choice.random⟩, some (tag, call)⟩, next⟩
      { mid with drawn := (choice.random, some (tag, call)) :: mid.drawn } := by
    refine ⟨List.mem_cons_self, fun version member same => ?_, fun other member same => ?_⟩
    · have drawn := permitted.versionsDrawn version member
      rw [same] at drawn
      exact absurd drawn (unused _)
    · have drawn := permitted.lateDrawn other member
      rw [same] at drawn
      exact absurd drawn (unused _)
  have sourced : ∀ world, known world → Register.Sourced (Permitted deps) world.register
      ⟨joinId, some revision, ⟨⟨joinId, transition, choice.random⟩, some (tag, call)⟩, next⟩ := by
    intro world held
    obtain ⟨old, ⟨version, member, key, number, rfl⟩, moves⟩ := source world held
    refine ⟨version, member, key, by rw [number], moves, fun actor acts _ _ same => ?_⟩
    cases same
    exact named actor acts
  show Program.Safe _ _ _
    (writeAndResolve ⟨joinId, some revision, ⟨joinId, transition, choice.random⟩, next⟩ >>= _) _ _
  refine Program.Safe.bind ((writeAndResolve_safe lasting ⟨joinId, some revision,
    ⟨joinId, transition, choice.random⟩, next⟩ mid sourced due still owns).mono
      fun reply before now said => ?_)
  obtain ⟨held, applied⟩ := said
  cases reply with
  | applied revision data => exact ⟨held, fun _ same => by cases same; exact applied _ _ rfl⟩
  | conflict current => exact ⟨held, fun _ same => by cases same⟩
  | operationMismatch => exact ⟨held, fun _ same => by cases same⟩
  | outcomeUnknown => exact ⟨held, fun _ same => by cases same⟩
  | unavailable => exact ⟨held, fun _ same => by cases same⟩

/-! ## Reads -/

/-- What a read of a join tells: a version of it that names the join. -/
def Read (deps : JoinDeps) (joinId : Text) (reply : JoinRead) (world : JoinWorld) : Prop :=
  ∀ record revision, reply = .found record revision →
    HasVersion joinId revision record world ∧ record.joinId = joinId ∧ Settled deps record

/-- A record is decoded as it is. -/
theorem decodeJoinRecord_eq {stored record : JoinRecord}
    (decoded : decodeJoinRecord deps stored = some record) :
    record = stored := by
  simp only [decodeJoinRecord, Option.ite_none_right_eq_some, Option.some.injEq] at decoded
  exact decoded.2.symm

/-- Giving back a reserved name leaves the joins alone. -/
theorem releaseReservation_meets (lasting : Lasting forward known) {joinId : Text}
    {record : JoinRecord} {revision : Nat}
    (read : ∀ world, known world → Read deps joinId (.found record revision) world) :
    Meets deps forward tag call known (releaseReservation record revision) fun reply world =>
      known world ∧ Read deps joinId reply world := by
  -- Either answer of the reservation leaves the join as it was read.
  have found : Meets deps forward tag call known (pure (.found record revision)) fun reply world =>
      known world ∧ Read deps joinId reply world := .done _ fun world held =>
        ⟨held, read world held⟩
  have failed : Meets deps forward tag call known (pure .unavailable) fun reply world =>
      known world ∧ Read deps joinId reply world := .done _ fun world held =>
        ⟨held, fun _ _ same => by cases same⟩
  unfold releaseReservation
  split
  · split
    -- The agent of the join is looked up, and it may be another's by now.
    · refine .bind (ask_meets lasting _) fun reply => ?_
      match reply with
      | some (.record (some held)) =>
        dsimp only
        split
        -- Its own reservation is taken back, and the answer tells how that went.
        · refine .bind (ask_meets lasting _) fun reply => ?_
          match reply with
          | some (.applied _ _) => exact found
          | some (.conflict _) => exact found
          | some .operationMismatch => exact failed
          | some .outcomeUnknown => exact failed
          | some .unavailable => exact failed
          | none => exact failed
        · exact found
      | some (.record none) => exact found
      | some .absent => exact found
      | some .unavailable => exact failed
      | none => exact failed
    · exact found
  · exact found

/-- A read of a join marks it as expired at most, and tells what the store has held. -/
theorem joinsRead_meets (lasting : Lasting forward known) (joinId : Text) :
    Meets deps forward tag call known (joinsRead deps joinId) fun reply world =>
      known world ∧ Read deps joinId reply world := by
  have general : ∀ attempts, Meets deps forward tag call known (readJoin deps joinId attempts)
    fun reply world =>
      known world ∧ Read deps joinId reply world := by
    intro attempts
    induction attempts with
    | zero => exact .done _ fun world held => ⟨held, fun _ _ same => by cases same⟩
    | succ attempts ih =>
      refine .bind (safeRead_meets lasting joinId) fun reply => ?_
      cases reply with
      | absent => exact .done _ fun world held => ⟨held.1, fun _ _ same => by cases same⟩
      | unavailable => exact .done _ fun world held => ⟨held.1, fun _ _ same => by cases same⟩
      | record revision stored =>
        dsimp only
        split
        · exact .done _ fun world held => ⟨held.1, fun _ _ same => by cases same⟩
        rename_i record decoded
        obtain rfl := decodeJoinRecord_eq decoded
        split
        · exact .done _ fun world held => ⟨held.1, fun _ _ same => by cases same⟩
        rename_i named
        have named : record.joinId = joinId := Decidable.not_not.mp named
        -- From here on the version read is known.
        refine .of_fact (fun world held => (held.2 revision record rfl).2) fun settled => ?_
        refine .knowing (fun world => known world ∧ HasVersion joinId revision record world)
          (fun world held => ⟨held.1, (held.2 revision record rfl).1⟩) ?_
        have lasting' := lasting.and (lasting_hasVersion joinId revision record)
        have plain : Meets deps forward tag call (fun world =>
          known world ∧ HasVersion joinId revision record world)
            (releaseReservation record revision) fun reply world =>
              known world ∧ Read deps joinId reply world := by
          refine (releaseReservation_meets lasting' fun world held => ?_).mono fun _ _ said =>
            ⟨said.1.1, said.2⟩
          intro _ _ same
          cases same
          exact ⟨held.2, named, settled⟩
        split
        · rename_i unclaimed
          refine .bind (clock_meets lasting') fun time => ?_
          have timed := lasting'.and (lasting_clock time)
          split
          · rename_i elapsed
            have late : record.expiresAt ≤ time := by
              by_contra early
              simp [effectiveState, early, unclaimed.1] at elapsed
            refine .bind
              (replace_meets timed (fun world held => ⟨record, held.1.2, .expire unclaimed.1 rfl⟩)
              (fun _ acts => by cases acts) fun world held ahead _ => late.trans (held.2 ahead))
                fun reply => ?_
            cases reply with
            | conflict => exact ih.weaken fun world held => held.1.1.1
            | applied revision =>
              refine .knowing (fun world => known world ∧
                HasVersion joinId revision { record with state := .expired } world)
                (fun world held => ⟨held.1.1.1, (held.2 _ rfl).hasVersion⟩) ?_
              refine (releaseReservation_meets (lasting.and (lasting_hasVersion joinId revision _))
                fun world held => ?_).mono fun _ _ said => ⟨said.1.1, said.2⟩
              intro _ _ same
              cases same
              exact ⟨held.2, named, fun confirmed => by simp at confirmed⟩
            | unknown => exact .done _ fun world held => ⟨held.1.1.1, fun _ _ same => by cases same⟩
            | unavailable => exact .done _ fun world held =>
              ⟨held.1.1.1, fun _ _ same => by cases same⟩
          · exact plain.weaken fun world held => held.1
        · exact plain
  exact general 3

end Khala.AgentJoin
