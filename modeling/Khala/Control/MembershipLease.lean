import Khala.Js.Json
import Khala.Concurrent.Triples

/-! The lease that admission and removal of one human take in turn: one record that names its holder
until it expires. -/

namespace Khala

/-- What the work under a lease holds on to. -/
structure MembershipLease where
  key : Js.Text
  leaseId : Nat
deriving DecidableEq

end Khala

namespace Khala.MembershipLease

open Js Concurrent

def LEASE_MS : Int := 300000

/-- A stored lease; a lease identifier is a random number. -/
structure LeaseRecord where
  v : Nat
  leaseId : Option Nat
  expiresAt : Int
deriving DecidableEq

/-- `membership-lease.<step>.<identifier>`. -/
inductive LeaseOperation
  | claim (leaseId : Nat)
  | renew (random : Nat)
  | release (leaseId : Nat)
deriving DecidableEq

/-- The number that the operation's own call has drawn. -/
def LeaseOperation.random : LeaseOperation → Option Nat
  | .claim leaseId => some leaseId
  | .renew random => some random
  | .release _ => none

/-- The three parts of `withMembershipLease`. -/
inductive LeaseCall
  | claim (roomId ownerId : Text)
  | renew (lease : MembershipLease)
  | release (lease : MembershipLease)

abbrev LeaseCall.Reply : LeaseCall → Type
  | claim _ _ => Option MembershipLease
  | renew _ => Bool
  | release _ => Unit

abbrev leaseCalls : Interface := ⟨LeaseCall, LeaseCall.Reply⟩

abbrev leaseSetting : Setting where
  Key := Text
  Data := LeaseRecord
  Operation := LeaseOperation
  keyEq := inferInstance
  dataEq := inferInstance
  operationEq := inferInstance
  live := fun _ _ => true
  nonce := LeaseOperation.random
  Calls := leaseCalls
  Questions := ⟨Empty, Empty.elim⟩
  Outside := Unit
  answer := fun _ _ outside => some outside
  Event := Empty
  happen := fun _ outside => some outside

abbrev LeaseProgram := StoreProgram leaseSetting

section

-- SHA-256 in hexadecimal.
variable (sha256 : Text → Text)

def leaseKey (roomId ownerId : Text) : Text :=
  lit "membership-lease.v1." ++ sha256 (stringify (.array [.string roomId, .string ownerId]))

/-- Writes the new holder over what was read. -/
def claimOver (key : Text) (leaseId : Nat) (expected : Option Nat) :
    LeaseProgram (Option MembershipLease) :=
  do
  let now ← StoreProgram.clock
  match ← StoreProgram.compareAndSet key expected (.claim leaseId) ⟨1, some leaseId,
    now + LEASE_MS⟩ with
  | .applied _ _ => return some ⟨key, leaseId⟩
  | _ => return none

/-- Takes the lease unless somebody holds it. -/
def claim (roomId ownerId : Text) : LeaseProgram (Option MembershipLease) := do
  let key := leaseKey sha256 roomId ownerId
  let leaseId ← StoreProgram.random
  match ← StoreProgram.read key with
  | .unavailable => return none
  -- Nobody has the lease yet.
  | .absent => claimOver key leaseId none
  | .record revision current =>
    let now ← StoreProgram.clock
    -- Another holder's time has not run out.
    if current.v ≠ 1 ∨ (current.leaseId.isSome = true ∧ now < current.expiresAt) then return none
    else claimOver key leaseId (some revision)

/-- `lease.renew`. -/
def renew (lease : MembershipLease) : LeaseProgram Bool := do
  match ← StoreProgram.read lease.key with
  | .record revision current =>
    let now ← StoreProgram.clock
    -- The lease is lost, to another holder or to the time.
    if current.leaseId ≠ some lease.leaseId ∨ current.expiresAt ≤ now then return false
    else
      let random ← StoreProgram.random
      let now ← StoreProgram.clock
      match ← StoreProgram.compareAndSet lease.key (some revision) (.renew random)
        ⟨1, some lease.leaseId, now + LEASE_MS⟩ with
      | .applied _ _ => return true
      | _ => return false
  | _ => return false

/-- What happens finally, whether the work ended with a result or an exception. -/
def release (lease : MembershipLease) : LeaseProgram Unit := do
  match ← StoreProgram.read lease.key with
  | .record revision current =>
    if current.leaseId = some lease.leaseId then
      let _ ← StoreProgram.compareAndSet lease.key (some revision)
        (.release lease.leaseId) ⟨1, none, 0⟩
      return ()
    else return ()
  | _ => return ()

def LeaseCall.body : (call : LeaseCall) → LeaseProgram call.Reply
  | .claim roomId ownerId => MembershipLease.claim sha256 roomId ownerId
  | .renew lease => MembershipLease.renew lease
  | .release lease => MembershipLease.release lease

abbrev leaseService : Service := leaseSetting.service (LeaseCall.body sha256)

end

/-- `withMembershipLease`: the work runs between the claim and the release, and none of it without a
claim. -/
def withMembershipLease {α : Type} (roomId ownerId : Text)
    (work : MembershipLease → Program leaseCalls α) :
    Program leaseCalls (Option α) := do
  match ← @Program.call leaseCalls (.claim roomId ownerId) with
  | none => return none
  | some lease =>
    let outcome ← work lease
    let _ ← @Program.call leaseCalls (.release lease)
    return some outcome

/-! ## The rule of the writes -/

/-- A claim replaces a lease that is free or over, a renewal and a release replace the lease of
their own. -/
def LeaseRule (store : Shared leaseSetting) (write : SharedWrite leaseSetting) : Prop :=
  (∀ leaseId, write.data.leaseId = some leaseId → write.data.expiresAt ≤ store.now + LEASE_MS) ∧
  -- A claim is over nothing or over a lease that is over.
  match write.author.operation with
  | .claim leaseId =>
    (∃ tag roomId ownerId, write.author.caller = some (tag, LeaseCall.claim roomId ownerId))
      ∧ write.data.leaseId = some leaseId ∧ ∀ revision, write.expected = some revision → ∃ old,
        HasVersion write.key revision old store ∧ (old.leaseId = none ∨ old.expiresAt ≤ store.now)
  -- A renewal keeps the holder and never shortens the time.
  | .renew _ => ∃ tag lease revision old, write.author.caller = some (tag, .renew lease)
    ∧ write.key = lease.key
      ∧ write.expected = some revision ∧ HasVersion write.key revision old store
      ∧ old.leaseId = some lease.leaseId
      ∧ write.data.leaseId = some lease.leaseId ∧ old.expiresAt ≤ write.data.expiresAt
  -- A release gives the lease back.
  | .release _ => ∃ tag lease revision old, write.author.caller = some (tag, .release lease)
    ∧ write.key = lease.key
      ∧ write.expected = some revision ∧ HasVersion write.key revision old store
      ∧ old.leaseId = some lease.leaseId
      ∧ write.data.leaseId = none

/-- A write that may be made may be made later. -/
theorem LeaseRule.grow {before after : Shared leaseSetting} {write : SharedWrite leaseSetting}
    (grown : Grown (fun _ _ => True) before after) (rule : LeaseRule before write) :
    LeaseRule after write := by
  obtain ⟨bound, rule⟩ := rule
  refine ⟨fun leaseId named => (bound leaseId named).trans (Int.add_le_add_right grown.clock _), ?_⟩
  split at rule
  · refine ⟨rule.1, rule.2.1, fun revision expected => ?_⟩
    obtain ⟨old, has, free⟩ := rule.2.2 revision expected
    exact ⟨old, has.grow grown, free.imp id fun past => past.trans grown.clock⟩
  · obtain ⟨tag, lease, revision, old, own, key, expected, has, rest⟩ := rule
    exact ⟨tag, lease, revision, old, own, key, expected, has.grow grown, rest⟩
  · obtain ⟨tag, lease, revision, old, own, key, expected, has, rest⟩ := rule
    exact ⟨tag, lease, revision, old, own, key, expected, has.grow grown, rest⟩

/-- At first nobody holds a lease. -/
def leaseRules : Rules leaseSetting :=
  .of (fun _ record => record.leaseId = none) LeaseRule LeaseRule.grow

variable {tag : Nat} {call : LeaseCall} {sha256 : Text → Text}

abbrev LeaseStore := Shared leaseSetting

/-- The call has written the record for the lease. -/
def Wrote (tag : Nat) (call : LeaseCall) (operation : LeaseOperation) (lease : MembershipLease)
    (store : LeaseStore) : Prop :=
  ∃ revision record, record.leaseId = some lease.leaseId
    ∧ HasWritten (T := leaseSetting) (some (tag, call)) operation lease.key revision record store

/-- That a call wrote lasts. -/
theorem persistent_wrote (tag : Nat) (call : LeaseCall) (operation : LeaseOperation)
    (lease : MembershipLease) :
    Persistent leaseRules (Wrote tag call operation lease) := by
  rintro before after grown ⟨revision, record, named, written⟩
  exact ⟨revision, record, named, persistent_hasWritten _ _ _ _ _ _ grown written⟩

/-- A renewal and a release are made over a version that names their lease. -/
theorem LeaseRule.own {store : LeaseStore} {write : SharedWrite leaseSetting}
    (rule : LeaseRule store write) {tag : Nat} {lease : MembershipLease}
    (own : write.author.caller = some (tag, .renew lease)
      ∨ write.author.caller = some (tag, .release lease)) :
    write.key = lease.key ∧ ∃ revision record, write.expected = some revision
      -- The lease rule tells by its caller whether a write claims, renews or releases.
      ∧ HasVersion write.key revision record store ∧ record.leaseId = some lease.leaseId := by
  obtain ⟨-, rule⟩ := rule
  split at rule
  -- A claim is neither of the two calls.
  · obtain ⟨⟨_, _, _, claims⟩, -⟩ := rule
    rcases own with own | own
    · cases own.symm.trans claims
    · cases own.symm.trans claims
  · obtain ⟨tag', lease', revision, record, renews, key, expected, has, before, -⟩ := rule
    rcases own with own | own
    · cases own.symm.trans renews
      exact ⟨key, revision, record, expected, has, before⟩
    · cases own.symm.trans renews
  · obtain ⟨tag', lease', revision, record, releases, key, expected, has, before, -⟩ := rule
    rcases own with own | own
    · cases own.symm.trans releases
    · cases own.symm.trans releases
      exact ⟨key, revision, record, expected, has, before⟩

/-! ## Each call -/

/-- What the answer to a call tells of the stored leases. -/
def LeaseTrue (sha256 : Text → Text) (tag : Nat) :
    (call : LeaseCall) → call.Reply → LeaseStore → Prop
  | .claim roomId ownerId, reply, store => ∀ lease, reply = some lease →
  lease.key = leaseKey sha256 roomId ownerId
      ∧ (lease.leaseId, some (tag, LeaseCall.claim roomId ownerId)) ∈ store.drawn
      ∧ Wrote tag (.claim roomId ownerId) (.claim lease.leaseId) lease store
  | .renew lease, reply, store => reply = true → ∃ random, Wrote tag (.renew lease)
    (.renew random) lease store
  | .release _, _, _ => True

/-- What an answer told stays true. -/
theorem persistent_leaseTrue (call : LeaseCall) (reply : call.Reply) :
    Persistent leaseRules (LeaseTrue sha256 tag call reply) := by
  intro before after grown held
  cases call with
  | claim roomId ownerId =>
    intro lease same
    obtain ⟨key, drawn, wrote⟩ := held lease same
    exact ⟨key, grown.drawn _ drawn, persistent_wrote _ _ _ _ _ _ grown wrote⟩
  | renew lease =>
    intro same
    obtain ⟨random, wrote⟩ := held same
    exact ⟨random, persistent_wrote _ _ _ _ _ _ grown wrote⟩
  | release lease => trivial

/-- Claiming over what was read, with a number of one's own. -/
theorem claimOver_upholds {known : LeaseStore → Prop} {roomId ownerId : Text} {leaseId : Nat}
    {expected : Option Nat} (persistent : Persistent leaseRules known)
    (free : ∀ store, known store → ∀ revision, expected = some revision →
      ∃ old, HasVersion (T := leaseSetting) (leaseKey sha256 roomId ownerId) revision old store
      ∧ (old.leaseId = none ∨ old.expiresAt ≤ store.now)) :
    Upholds leaseRules tag (.claim roomId ownerId)
      (fun store => known store ∧ Fresh (some (tag, LeaseCall.claim roomId ownerId)) leaseId store)
      (claimOver (leaseKey sha256 roomId ownerId) leaseId expected)
      (LeaseTrue sha256 tag (.claim roomId ownerId)) := by
  -- The number stays unused while others run, and the time read does not get ahead of the clock.
  have stable : Stable leaseRules (some (tag, LeaseCall.claim roomId ownerId)) fun store =>
      known store ∧ Fresh (some (tag, LeaseCall.claim roomId ownerId)) leaseId store :=
    persistent.stable.and (stable_fresh leaseId)
  refine .bind (Upholds.clock stable) fun time => ?_
  refine .knowing (fun store =>
    (known store ∧ Fresh (some (tag, LeaseCall.claim roomId ownerId)) leaseId store)
    ∧ time ≤ store.now)
    (fun store _ held => ⟨held.1, le_of_eq held.2.symm⟩) ?_
  refine .bind (Upholds.compareAndSet (stable.and (persistent_clock time).stable) ?_) fun reply =>
    ?_
  · intro store _ held _
    refine ⟨⟨fun _ _ => Int.add_le_add_right held.2 _, ⟨tag, roomId, ownerId, rfl⟩, rfl,
      fun revision same => free store held.1.1 revision same⟩, ?_⟩
    rintro number named
    cases named
    exact held.1.2.drawn
  · cases reply with
    | applied revision data =>
      refine .done _ fun after _ said lease same => ?_
      cases same
      obtain ⟨store, claimed, fate, -, held, -, grown, wrote⟩ := said
      have owns : Owns (T := leaseSetting) ⟨leaseKey sha256 roomId ownerId, expected,
          ⟨.claim leaseId, some (tag, LeaseCall.claim roomId ownerId)⟩,
            ⟨1, some leaseId, time + LEASE_MS⟩⟩ store :=
        held.1.2.owns rfl rfl
      have written := owns.applied (congrArg Prod.fst wrote)
      rw [wrote] at written
      exact ⟨rfl, grown.drawn _ held.1.2.drawn, _, _, rfl, written⟩
    | conflict current => exact .done _ fun _ _ _ _ same => by cases same
    | operationMismatch => exact .done _ fun _ _ _ _ same => by cases same
    | outcomeUnknown => exact .done _ fun _ _ _ _ same => by cases same
    | unavailable => exact .done _ fun _ _ _ _ same => by cases same

/-- A claim keeps to the rules. -/
theorem claim_upholds (roomId ownerId : Text) :
    Upholds leaseRules tag (.claim roomId ownerId) (fun _ => True) (claim sha256 roomId ownerId)
      (LeaseTrue sha256 tag (.claim roomId ownerId)) := by
  -- The new lease has an id that no write of the store names yet.
  refine .bind (Upholds.random persistent_true) fun leaseId => ?_
  have stable : Stable leaseRules (some (tag, LeaseCall.claim roomId ownerId)) fun store =>
      True ∧ Fresh (some (tag, LeaseCall.claim roomId ownerId)) leaseId store :=
    stable_true.and (stable_fresh leaseId)
  refine .bind (Upholds.read stable _) fun reply => ?_
  -- The record decides: it is unavailable, absent or held.
  cases reply with
  | unavailable => exact .done _ fun _ _ _ _ same => by cases same
  | absent =>
    refine .weaken (claimOver_upholds persistent_true fun _ _ revision same => ?_)
      fun store _ held => held.1
    cases same
  | record revision current =>
    refine .knowing (fun store =>
      (HasVersion (T := leaseSetting) (leaseKey sha256 roomId ownerId) revision current store)
      ∧ Fresh (some (tag, LeaseCall.claim roomId ownerId)) leaseId store)
        (fun store _ held => ⟨held.2.hasVersion, held.1.2⟩) ?_
    -- It is held, and the clock tells whether it is over.
    refine .bind (Upholds.clock ((persistent_hasVersion _ _ _).stable.and (stable_fresh leaseId)))
      fun time => ?_
    dsimp only
    split
    · exact .done _ fun _ _ _ _ same => by cases same
    · rename_i free
      -- A record that is not in the way names no lease, or one that has ended.
      have ended : current.leaseId = none ∨ current.expiresAt ≤ time := by
        by_contra held
        push Not at held free
        exact absurd (free.2 (Option.ne_none_iff_isSome.mp held.1)) (not_le.mpr held.2)
      refine .weaken
        (claimOver_upholds ((persistent_hasVersion (T := leaseSetting) _ revision current).and
          (persistent_clock time))
        fun store known other same => ?_) fun store _ held =>
          ⟨⟨held.1.1, le_of_eq held.2.symm⟩, held.1.2⟩
      cases same
      exact ⟨current, known.1, ended.imp id fun past => past.trans known.2⟩

/-- A lease in force was written with a time that has come. -/
theorem expiry_bound {store : LeaseStore} (kept : Kept leaseRules store)
    {version : SharedVersion leaseSetting} (member : version ∈ store.versions) {leaseId : Nat}
    (named : version.data.leaseId = some leaseId) :
    version.data.expiresAt ≤ store.now + LEASE_MS := by
  rcases kept.versions version member with ⟨-, -, first⟩ | ⟨expected, rule, -⟩
  · have nobody : version.data.leaseId = none := first
    rw [nobody] at named
    cases named
  · exact rule.1 leaseId named

/-- A renewal keeps to the rules. -/
theorem renew_upholds (lease : MembershipLease) :
    Upholds leaseRules tag (.renew lease) (fun _ => True) (renew lease)
      (LeaseTrue sha256 tag (.renew lease)) := by
  -- A refusal tells nothing.
  have refused : ∀ {known : LeaseStore → Prop},
      Upholds leaseRules tag (.renew lease) known (pure false)
        (LeaseTrue sha256 tag (.renew lease)) :=
    .done _ fun _ _ _ same => by cases same
  refine .bind (Upholds.read stable_true _) fun reply => ?_
  cases reply with
  | unavailable => exact refused
  | absent => exact refused
  | record revision current =>
    -- The version that was read stays in the history.
    have lasting :
      Persistent leaseRules (HasVersion (T := leaseSetting) lease.key revision current) :=
      persistent_hasVersion _ _ _
    refine .knowing (HasVersion (T := leaseSetting) lease.key revision current)
      (fun _ _ held => held.2.hasVersion) ?_
    refine .bind (Upholds.clock lasting.stable) fun _ => ?_
    dsimp only
    split
    · exact refused
    -- The lease is still held by the one who renews.
    rename_i own
    have own : current.leaseId = some lease.leaseId := by
      by_contra other
      exact own (Or.inl other)
    refine .knowing (HasVersion (T := leaseSetting) lease.key revision current)
      (fun _ _ held => held.1) ?_
    refine .bind (Upholds.random lasting) fun random => ?_
    refine .bind (Upholds.clock (lasting.stable.and (stable_fresh random))) fun time => ?_
    -- Whoever stored what was read added the length of a lease to an earlier time.
    refine .of_fact (p := current.expiresAt ≤ time + LEASE_MS) (fun store kept held => ?_)
      fun bound => ?_
    · obtain ⟨version, member, -, -, rfl⟩ := held.1.1
      have limit := expiry_bound kept member own
      rwa [held.2] at limit
    refine .knowing (fun store => (HasVersion (T := leaseSetting) lease.key revision current store
      ∧ Fresh (some (tag, LeaseCall.renew lease)) random store) ∧ time ≤ store.now)
      (fun _ _ held => ⟨held.1, le_of_eq held.2.symm⟩) ?_
    refine .bind
      (Upholds.compareAndSet ((lasting.stable.and (stable_fresh random)).and
        (persistent_clock time).stable) ?_) fun reply => ?_
    -- The write is one that the rule allows.
    · intro store _ held _
      refine ⟨⟨fun _ _ => Int.add_le_add_right held.2 _, tag, lease, revision, current, rfl, rfl,
        rfl, held.1.1, own, rfl, bound⟩, ?_⟩
      rintro number named
      cases named
      exact held.1.2.drawn
    · cases reply with
      -- An applied write is the call's own.
      | applied revision' data =>
        refine .done _ fun after _ said _ => ?_
        obtain ⟨store, claimed, fate, -, held, -, -, wrote⟩ := said
        have owns :
          Owns (T := leaseSetting) ⟨lease.key, some revision,
            ⟨.renew random, some (tag, LeaseCall.renew lease)⟩,
            ⟨1, some lease.leaseId, time + LEASE_MS⟩⟩ store :=
          held.1.2.owns rfl rfl
        have written := owns.applied (congrArg Prod.fst wrote)
        rw [wrote] at written
        exact ⟨random, _, _, rfl, written⟩
      | conflict current => exact refused
      | operationMismatch => exact refused
      | outcomeUnknown => exact refused
      | unavailable => exact refused

/-- A release keeps to the rules. -/
theorem release_upholds (lease : MembershipLease) :
    Upholds leaseRules tag (.release lease) (fun _ => True) (release lease)
      (LeaseTrue sha256 tag (.release lease)) := by
  -- The release answers nothing, however it ends.
  have finished : ∀ {known : LeaseStore → Prop},
      Upholds leaseRules tag (.release lease) known (pure ())
        (LeaseTrue sha256 tag (.release lease)) :=
    .done _ fun _ _ _ => trivial
  refine .bind (Upholds.read stable_true _) fun reply => ?_
  -- Only a record that names this very lease is written.
  cases reply with
  | unavailable => exact finished
  | absent => exact finished
  | record revision current =>
    have lasting :
      Persistent leaseRules (HasVersion (T := leaseSetting) lease.key revision current) :=
      persistent_hasVersion _ _ _
    refine .knowing (HasVersion (T := leaseSetting) lease.key revision current)
      (fun _ _ held => held.2.hasVersion) ?_
    dsimp only
    split
    · rename_i own
      refine .bind (Upholds.compareAndSet lasting.stable ?_) fun _ => finished
      intro store _ held _
      exact ⟨⟨(fun _ same => by cases same), tag, lease, revision, current, rfl, rfl, rfl,
        held, own, rfl⟩,
        fun _ named => by cases named⟩
    · exact finished

/-- Every call keeps to the rules, and its answer is true. -/
theorem lease_upholds (tag : Nat) (call : LeaseCall) :
    Upholds leaseRules tag call (fun _ => True) (call.body sha256) (LeaseTrue sha256 tag call) := by
  cases call with
  | claim roomId ownerId => exact claim_upholds roomId ownerId
  | renew lease => exact renew_upholds lease
  | release lease => exact release_upholds lease

/-! ## One holder at a time -/

/-- A lease stays with its holder until it is over or its holder has released it. -/
theorem lease_stays {store : LeaseStore} (kept : Kept leaseRules store)
    {version : SharedVersion leaseSetting} (member : version ∈ store.versions) {leaseId : Nat}
    (named : version.data.leaseId = some leaseId) (inForce : store.now < version.data.expiresAt)
    (unreleased : ∀ other ∈ store.versions, ∀ tag,
      other.author.caller ≠ some (tag, LeaseCall.release ⟨version.key, leaseId⟩)) :
    ∀ later ∈ store.versions, later.key = version.key → version.etag ≤ later.etag →
      later.data.leaseId = some leaseId ∧ version.data.expiresAt ≤ later.data.expiresAt := by
  -- Each later version replaces one of the same lease, and the rule tells what it may be.
  refine kept.since (fun _ _ => rfl) member (fun later => later.data.leaseId = some leaseId
    ∧ version.data.expiresAt ≤ later.data.expiresAt) ⟨named, le_refl _⟩ ?_
  intro old inside new member' key _ same _ rule held
  obtain ⟨-, rule⟩ := rule
  dsimp only at rule
  split at rule
  · -- A claim would have found the lease free or over.
    obtain ⟨record, has, free⟩ := rule.2.2 old.etag rfl
    rw [has.eq inside] at free
    rcases free with nobody | past
    · rw [held.1] at nobody
      cases nobody
    · exact absurd (held.2.trans past) (not_le.mpr inForce)
  -- A renewal keeps the lease and its end moves on.
  · obtain ⟨tag, lease, revision, record, own, -, expected, has, before, after, longer⟩ := rule
    cases expected
    rw [has.eq inside] at before longer
    exact ⟨after.trans (before.symm.trans held.1), held.2.trans longer⟩
  -- A release of this lease was ruled out.
  · obtain ⟨tag, lease, revision, record, own, key', expected, has, before, -⟩ := rule
    cases expected
    rw [has.eq inside] at before
    have leased : lease = ⟨version.key, leaseId⟩ := by
      obtain ⟨leaseKey, id⟩ := lease
      simp only at key' before
      rw [MembershipLease.mk.injEq, ← key', key]
      exact ⟨rfl, Option.some.inj (before.symm.trans held.1)⟩
    exact absurd (leased ▸ own) (unreleased new member' tag)

section

variable {start config : Config (leaseService sha256)} {log : List (Answer (leaseService sha256))}

/-- The lease that an answer hands out. -/
def granted : Answer (leaseService sha256) → Option MembershipLease
  | ⟨_, .claim _ _, reply⟩ => reply
  | ⟨_, .renew _, _⟩ => none
  | ⟨_, .release _, _⟩ => none

/-- A caller holds a lease that a claim has handed out: a record of it has not expired, and it has
not begun to release it. -/
structure HoldsLease (log : List (Answer (leaseService sha256)))
    (config : Config (leaseService sha256)) (lease : MembershipLease) : Prop where
  acquired : ∃ answer ∈ log, granted answer = some lease
  inForce : ∃ version ∈ config.store.versions, version.key = lease.key
    ∧ version.data.leaseId = some lease.leaseId
    ∧ config.store.now < version.data.expiresAt
  unreleased : ∀ tag, ¬ Started log config tag (.release lease)

/-- In every run at most one lease of one human in one room is held at a time, and it is one
caller's; a claim that is granted and a renewal that succeeds have stored the lease; and a renewal
or a release replaces the lease of its own. -/
theorem one_holder (idle : start.Idle) (original : Original leaseRules start.store)
    (run : Run (fun _ _ => True) start log config) :
    (∀ lease other, HoldsLease log config lease → HoldsLease log config other →
      lease.key = other.key → lease = other) ∧
    (∀ answer ∈ log, ∀ other ∈ log, ∀ lease, granted answer = some lease →
      granted other = some lease →
      answer.tag = other.tag) ∧
    (∀ answer ∈ log, LeaseTrue sha256 answer.tag answer.call answer.reply config.store) ∧
    ∀ version ∈ config.store.versions, ∀ tag lease,
      version.author.caller = some (tag, .renew lease) ∨
      version.author.caller = some (tag, .release lease) → version.key = lease.key ∧
        ∃ old, config.store.register.replaced version = some old
          ∧ old.data.leaseId = some lease.leaseId := by
  -- Every call keeps the rules of the lease.
  have safe : ∀ tag call, Upholds leaseRules tag call (fun _ => True) (call.body sha256)
    (LeaseTrue sha256 tag call) :=
    lease_upholds
  have free : Respects leaseRules fun (_ : Config (leaseService sha256)) _ => True :=
    fun _ _ _ _ _ _ _ _ _ _ => trivial
  obtain ⟨kept, answered⟩ := shared_run free safe idle original.kept run
  have told : ∀ answer ∈ log, LeaseTrue sha256 answer.tag answer.call answer.reply config.store :=
    fun answer member => (persistent_leaseTrue _ _).of_once (answered answer member)
  have started := (shared_started free safe idle original run).1
  refine ⟨fun lease other one two same => ?_, fun answer member other member' lease one two =>
    ?_, told,
    fun version member tag lease own => ?_⟩
  · obtain ⟨first, inside, key, named, inForce⟩ := one.inForce
    obtain ⟨second, inside', key', named', inForce'⟩ := two.inForce
    -- Nobody has released either of them, so neither has been replaced by the other.
    have unreleased : ∀ {lease : MembershipLease}, HoldsLease log config lease →
      ∀ version ∈ config.store.versions, ∀ tag,
        version.author.caller ≠ some (tag, LeaseCall.release lease) :=
      fun holds version member tag own => holds.unreleased tag (started version member tag _ own)
    have ids : some lease.leaseId = some other.leaseId := by
      -- The earlier of the two is still the one that is in force.
      rcases Nat.le_total first.etag second.etag with order | order
      · have stays :=
          lease_stays kept inside named inForce (by rw [key]; exact unreleased one) second inside'
          (key'.trans (same.symm.trans key.symm)) order
        exact stays.1.symm.trans named'
      · have stays :=
          lease_stays kept inside' named' inForce' (by rw [key']; exact unreleased two) first inside
          (key.trans (same.trans key'.symm)) order
        exact named.symm.trans stays.1
    obtain ⟨leaseKey, id⟩ := lease
    obtain ⟨otherKey, otherId⟩ := other
    cases same
    cases ids
    rfl
  · -- The number of a lease was drawn by the claim that handed it out.
    have drawer : ∀ answer ∈ log, granted answer = some lease →
        ∃ call, (lease.leaseId, some (answer.tag, call)) ∈ config.store.drawn := by
      rintro ⟨tag, call, reply⟩ member grants
      cases call with
      | claim roomId ownerId => exact ⟨_, (told _ member lease grants).2.1⟩
      | renew _ => cases grants
      | release _ => cases grants
    obtain ⟨call, first⟩ := drawer answer member one
    obtain ⟨call', second⟩ := drawer other member' two
    have pairs := kept.drawer first second
    rw [Option.some.injEq, Prod.mk.injEq] at pairs
    exact pairs.1
  -- Who wrote a version did so by the rule of its operation.
  · rcases kept.history (fun _ _ => rfl) member
      with ⟨nobody, -⟩ | ⟨-, rule⟩ | ⟨old, inside, -, -, found, rule⟩
    · rcases own with own | own
      · rw [nobody] at own
        cases own
      · rw [nobody] at own
        cases own
    · obtain ⟨-, revision, record, expected, -⟩ := rule.own own
      cases expected
    · obtain ⟨key, revision, record, expected, has, named⟩ := rule.own own
      cases expected
      exact ⟨key, old, found, has.eq inside ▸ named⟩

end

/-! ## Two callers at once -/

/-- Two callers that renew the lease they get. -/
private def twoCallers : Config (leaseService id) where
  store := ⟨⟨.empty, []⟩, [], [], 0, ()⟩
  threads
    | 0 => .idle (do let _ ← withMembershipLease [1] [2] fun lease => @Program.call leaseCalls (.renew lease))
    | 1 => .idle (do let _ ← withMembershipLease [1] [2] fun lease => @Program.call leaseCalls (.renew lease))
    | _ => .idle (.done ())
  next := 0

/-- A caller takes a number of steps, each with a random number of its own at hand. -/
private def leaseSteps (thread first count : Nat) : List (Move (leaseService id)) :=
  (List.range' first count).map fun random =>
    .effect thread ⟨true, .answered, random, fun question => question.elim⟩

private def releases : LeaseCall → Bool
  | .release _ => true
  | _ => false

/-- A run in which the first caller has claimed and renewed the lease and the second has been turned
away. -/
theorem one_holder_renewed : ∃ log config, Run (fun _ _ => True) twoCallers log config ∧
    HoldsLease log config ⟨leaseKey id [1] [2], 7⟩ ∧
    ∀ other, HoldsLease log config other → other.key = leaseKey id [1] [2] →
    other = ⟨leaseKey id [1] [2], 7⟩ := by
  -- The first caller takes the lease and renews it, and the second one is refused.
  have ran : ∃ log config, execute (fun _ _ => true) twoCallers
      (Move.start 0 :: leaseSteps 0 7 4 ++ Move.start 0 :: leaseSteps 0 20 5
        ++ Move.start 1 :: leaseSteps 1 30 3) = some (log, config)
      ∧ (∃ answer ∈ log, granted answer = some ⟨leaseKey id [1] [2], 7⟩)
      ∧ (∃ version ∈ config.store.versions, version.key = leaseKey id [1] [2] ∧ version.data.leaseId = some 7
        ∧ config.store.now < version.data.expiresAt)
      ∧ (log.all fun answer => !releases answer.call) = true
      ∧ ∀ thread, ∃ client, config.threads thread = .idle client :=
    ⟨_, _, rfl, ⟨_, List.mem_cons_self, rfl⟩, ⟨_, List.mem_cons_self, rfl, rfl, by decide⟩, rfl, fun
      | 0 => ⟨_, rfl⟩
      | 1 => ⟨_, rfl⟩
      | _ + 2 => ⟨_, rfl⟩⟩
  -- So the lease is held at the end, and nobody has let it go.
  obtain ⟨log, config, done, acquired, inForce, unreleased, rests⟩ := ran
  have idle : twoCallers.Idle
    | 0 => ⟨_, rfl⟩
    | 1 => ⟨_, rfl⟩
    | _ + 2 => ⟨_, rfl⟩
  have original : Original leaseRules twoCallers.store :=
    ⟨fun _ member => (List.not_mem_nil member).elim, rfl, fun _ member =>
      (List.not_mem_nil member).elim,
      fun _ member => (List.not_mem_nil member).elim, List.nodup_nil⟩
  have run : Run (fun _ _ => True) twoCallers log config :=
    (Run.of_execute done).mono fun _ _ _ => trivial
  have holds : HoldsLease log config ⟨leaseKey id [1] [2], 7⟩ := by
    refine ⟨acquired, inForce, fun tag started => ?_⟩
    -- A release would be in the log, or under way in some thread.
    rcases started with ⟨answer, member, -, called⟩ | ⟨thread, rest, client, busy⟩
    · have kept := List.all_eq_true.mp unreleased answer member
      rw [called] at kept
      cases kept
    · obtain ⟨client', rested⟩ := rests thread
      rw [rested] at busy
      cases busy
  -- Any other holder of the same key holds this lease.
  exact ⟨log, config, run, holds, fun other held same =>
    (one_holder idle original run).1 other _ held holds same⟩

end Khala.MembershipLease
