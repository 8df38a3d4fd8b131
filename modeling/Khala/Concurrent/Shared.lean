import Khala.Concurrent.Contract
import Khala.Concurrent.Register
import Mathlib.Data.Int.Order.Basic
import Mathlib.Order.Basic

/-! Calls that share one compare-and-set store, a clock and random numbers, and the rule all their
writes follow. -/

namespace Concurrent

/-- What a family of calls shares: the records of the store, and an outside that it may ask
questions. -/
structure Setting where
  Key : Type
  Data : Type
  Operation : Type
  keyEq : DecidableEq Key
  dataEq : DecidableEq Data
  operationEq : DecidableEq Operation
  /-- Whether a record has not expired at a time. -/
  live : Int → Data → Bool
  /-- The random number in the name of an operation. -/
  nonce : Operation → Option Nat
  Calls : Interface
  Questions : Interface
  /-- What the calls may ask the rest of the world. -/
  Outside : Type
  /-- What the outside is like after an answer, if it can give that answer. -/
  answer : (question : Questions.Op) → Questions.Reply question → Outside → Option Outside
  Event : Type
  happen : Event → Outside → Option Outside

variable {T : Setting}

instance : DecidableEq T.Key := T.keyEq
instance : DecidableEq T.Data := T.dataEq
instance : DecidableEq T.Operation := T.operationEq

/-- The call that makes a write, under its number; none for what was there before. -/
abbrev Caller (T : Setting) : Type := Option (Nat × T.Calls.Op)

abbrev SharedRegister (T : Setting) : Type := Register T.Key T.Data T.Operation (Caller T)

abbrev SharedVersion (T : Setting) : Type := Version T.Key T.Data (Author T.Operation (Caller T))

abbrev SharedWrite (T : Setting) : Type := Write T.Key T.Data T.Operation (Caller T)

/-- The one write that an operation may be used for. A claim is held, or nobody knows whether it is.
-/
structure Claim (T : Setting) where
  operation : T.Operation
  key : T.Key
  data : T.Data
  held : Bool

/-- What a write claims. -/
def claimOf (write : SharedWrite T) (held : Bool) : Claim T :=
  ⟨write.author.operation, write.key, write.data, held⟩

/-- The store with the claims of operations, the random numbers drawn so far with who drew them, the
clock and the outside. -/
structure Shared (T : Setting) where
  register : SharedRegister T
  claims : List (Claim T)
  drawn : List (Nat × Caller T)
  now : Int
  outside : T.Outside

abbrev Shared.versions (store : Shared T) : List (SharedVersion T) := store.register.versions.list

inductive StoreOp (T : Setting)
  | read (key : T.Key)
  | compareAndSet (key : T.Key) (expected : Option Nat) (operation : T.Operation) (data : T.Data)
  | resolve (key : T.Key) (operation : T.Operation)
  | clock
  | random
  | ask (question : T.Questions.Op)

abbrev StoreOp.Reply : StoreOp T → Type
  | read _ => ReadReply T.Data
  | compareAndSet _ _ _ _ => WriteReply T.Data
  | resolve _ _ => ResolveReply T.Data
  | clock => Int
  | random => Nat
  | ask question => T.Questions.Reply question

abbrev storeEffects (T : Setting) : Interface := ⟨StoreOp T, StoreOp.Reply⟩

abbrev StoreProgram (T : Setting) : Type → Type := Program (storeEffects T)

/-- What is left open about an operation; a write may fail before its operation is claimed. -/
structure StoreChoice (T : Setting) where
  claimed : Bool
  fate : Fate
  random : Nat
  answer : (question : T.Questions.Op) → T.Questions.Reply question

/-- The operation is claimed for another key or other data. -/
def Shared.Mismatched (store : Shared T) (write : SharedWrite T) : Prop :=
  ∃ claim ∈ store.claims, claim.held = true ∧ claim.operation = write.author.operation
    ∧ ¬ (claim.key = write.key ∧ claim.data = write.data)

instance (store : Shared T) (write : SharedWrite T) : Decidable (store.Mismatched write) := by
  unfold Shared.Mismatched
  infer_instance

/-- A write that fails before its operation is claimed, or before anybody knows whether it is. -/
def Shared.lose (store : Shared T) (write : SharedWrite T) : Fate → WriteReply T.Data × Shared T
  | .unavailable => (.unavailable, store)
  | _ => (.outcomeUnknown, { store with claims := claimOf write false :: store.claims })

/-- The reply to a write whose operation is claimed for another. -/
def mismatch : Fate → WriteReply T.Data
  | .answered => .operationMismatch
  | .unavailable => .unavailable
  | .unknown _ => .outcomeUnknown

/-- A compare-and-set claims its operation, and then it is carried out or not. -/
def Shared.compareAndSet (store : Shared T) (write : SharedWrite T) (claimed : Bool) (fate : Fate) :
    WriteReply T.Data × Shared T :=
  if claimed = false then store.lose write fate
  else if store.Mismatched write then (mismatch fate, store)
  else
    let (reply, register) := store.register.compareAndSet (T.live store.now) write fate
    (reply, { store with register := register, claims := claimOf write true :: store.claims })

/-- Operations as the contract of the store has them. A random number is never drawn twice. -/
def execShared (tag : Nat) (call : T.Calls.Op) :
    Semantics (storeEffects T) (StoreChoice T) (Shared T)
  -- A read gives the newest version that has not expired, or fails.
  | .read key, choice, store => some (store.register.read (T.live store.now) key choice.fate, store)
  | .compareAndSet key expected operation data, choice, store =>
    -- A write is made in the name of the call that asks for it.
    some (store.compareAndSet ⟨key, expected, ⟨operation, some (tag, call)⟩,
      data⟩ choice.claimed choice.fate)
  | .resolve key operation, choice, store =>
    let (reply, register) := store.register.resolve key operation choice.fate
    some (reply, { store with register := register })
  | .clock, _, store => some (store.now, store)
  | .random, choice, store =>
    -- A random number is new.
    if choice.random ∈ store.drawn.map (·.1) then none
    else some (choice.random,
      { store with drawn := (choice.random, some (tag, call)) :: store.drawn })
  | .ask question, choice, store =>
    -- The outside answers, and may change by that.
    (T.answer question (choice.answer question) store.outside).map fun outside =>
      (choice.answer question, { store with outside := outside })

/-- The clock goes on, a write of unknown outcome lands, or something happens outside. -/
inductive SharedEvent (T : Setting)
  | clock (now : Int)
  | land (index : Nat)
  | happen (event : T.Event)

def outsideShared : SharedEvent T → Shared T → Option (Shared T)
  | .clock now, store => if now < store.now then none else some { store with now := now }
  | .land index, store =>
    (store.register.land (T.live store.now) index).map fun register =>
    { store with register := register }
  | .happen event, store => (T.happen event store.outside).map fun outside =>
    { store with outside := outside }

/-- The service that answers calls by the given programs. -/
def Setting.service (T : Setting)
    (body : (call : T.Calls.Op) → StoreProgram T (T.Calls.Reply call)) : Service where
  Calls := T.Calls
  Effects := storeEffects T
  Store := Shared T
  Choice := StoreChoice T
  body := body
  exec := execShared
  Event := SharedEvent T
  outside := outsideShared

/-! ## Operations -/

namespace StoreProgram

def read (key : T.Key) : StoreProgram T (ReadReply T.Data) :=
  @Program.call (storeEffects T) (.read key)

def compareAndSet (key : T.Key) (expected : Option Nat) (operation : T.Operation) (data : T.Data) :
    StoreProgram T (WriteReply T.Data) :=
  @Program.call (storeEffects T) (.compareAndSet key expected operation data)

def resolve (key : T.Key) (operation : T.Operation) : StoreProgram T (ResolveReply T.Data) :=
  @Program.call (storeEffects T) (.resolve key operation)

def clock : StoreProgram T Int := @Program.call (storeEffects T) .clock

def random : StoreProgram T Nat := @Program.call (storeEffects T) .random

def ask (question : T.Questions.Op) : StoreProgram T (T.Questions.Reply question) :=
  @Program.call (storeEffects T) (.ask question)

end StoreProgram

/-! ## Rules -/

/-- One store is a later state of another. -/
structure Grown (grows : T.Outside → T.Outside → Prop) (before after : Shared T) : Prop where
  later : before.register.versions.Later after.register.versions
  claims : ∀ claim ∈ before.claims, claim ∈ after.claims
  drawn : ∀ pair ∈ before.drawn, pair ∈ after.drawn
  clock : before.now ≤ after.now
  outside : grows before.outside after.outside

/-- What the records are at first, how the outside goes on, what is asked of a write when it is
made, and when an operation of a call may be performed. -/
structure Rules (T : Setting) where
  /-- What a record may be at the start. -/
  first : T.Key → T.Data → Prop
  /-- What a call may do, as far as that is given from outside. -/
  may : T.Calls.Op → StoreOp T → Shared T → Prop
  grows : T.Outside → T.Outside → Prop
  refl : ∀ outside, grows outside outside
  trans : ∀ {first second third}, grows first second → grows second third → grows first third
  answered : ∀ {question reply before after}, T.answer question reply before = some after →
    grows before after
  happened : ∀ {event before after}, T.happen event before = some after → grows before after
  /-- What may be written, in view of the store. -/
  rule : Shared T → SharedWrite T → Prop
  /-- A rule holds on as the store grows. -/
  stable : ∀ {before after write}, Grown grows before after → rule before write → rule after write

/-- Rules that say nothing of the outside and leave every operation free. -/
def Rules.of (first : T.Key → T.Data → Prop) (rule : Shared T → SharedWrite T → Prop)
    (stable : ∀ {before after write}, Grown (fun _ _ => True) before after → rule before write →
      rule after write) :
    Rules T where
  first := first
  -- The outside is left open.
  may := fun _ _ _ => True
  grows := fun _ _ => True
  refl := fun _ => trivial
  trans := fun _ _ => trivial
  answered := fun _ => trivial
  happened := fun _ => trivial
  rule := rule
  stable := stable

variable {R : Rules T} {tag : Nat} {call : T.Calls.Op} {caller : Caller T}

/-- The version replaced the one that its write expected, or one that had expired. -/
def Replaces (store : Shared T) (version : SharedVersion T) : Option Nat → Prop
  | some etag => ∃ old, store.register.replaced version = some old ∧ old.etag = etag
  | none => ∀ old, store.register.replaced version = some old → ∃ time ≤ store.now,
    T.live time old.data = false

/-- A version that was there at first, or that a write by the rule has put in place of another. -/
def Regular (R : Rules T) (store : Shared T) (version : SharedVersion T) : Prop :=
  (version.author.caller = none ∧ store.register.replaced version = none
    ∧ R.first version.key version.data) ∨
    ∃ expected, R.rule store ⟨version.key, expected, version.author, version.data⟩
      ∧ Replaces store version expected

/-- The number in an operation's name was drawn by the operation's caller. -/
def Drawn (store : Shared T) (author : Author T.Operation (Caller T)) : Prop :=
  ∀ number, T.nonce author.operation = some number → (number, author.caller) ∈ store.drawn

/-- The claim of a version. -/
def SharedVersion.claim (version : SharedVersion T) : Claim T :=
  ⟨version.author.operation, version.key, version.data, true⟩

/-- A claim of what was there at first, or of a write by the rule. -/
def Ruled (R : Rules T) (store : Shared T) (claim : Claim T) : Prop :=
  (∃ version ∈ store.versions, version.author.caller = none ∧ version.claim = claim) ∨
    ∃ write held, R.rule store write ∧ claimOf write held = claim

/-- What holds of the store at all times. -/
structure Kept (R : Rules T) (store : Shared T) : Prop where
  /-- Each version was written by the rules, or was there from the start. -/
  versions : ∀ version ∈ store.versions, Regular R store version
  /-- A late write still follows the rules. -/
  late : ∀ write ∈ store.register.late, R.rule store write
  versionsDrawn : ∀ version ∈ store.versions, Drawn store version.author
  lateDrawn : ∀ write ∈ store.register.late, Drawn store write.author
  /-- An operation is claimed for one write. -/
  claims : ∀ one ∈ store.claims, ∀ two ∈ store.claims, one.held = true → two.held = true →
    one.operation = two.operation →
    one = two
  /-- What was claimed was claimed by the rules. -/
  ruled : ∀ claim ∈ store.claims, Ruled R store claim
  /-- A version was claimed by the write that made it. -/
  versionsClaimed : ∀ version ∈ store.versions, version.claim ∈ store.claims
  lateClaimed : ∀ write ∈ store.register.late, claimOf write true ∈ store.claims
  /-- No random number was given out twice. -/
  numbers : (store.drawn.map (·.1)).Nodup

/-- A store to begin with: all that is there was there before any call. -/
structure Original (R : Rules T) (store : Shared T) : Prop where
  versions : ∀ version ∈ store.versions, version.author.caller = none
    ∧ store.register.replaced version = none
    ∧ R.first version.key version.data ∧ Drawn store version.author ∧ version.claim ∈ store.claims
  late : store.register.late = []
  claims : ∀ one ∈ store.claims, ∀ two ∈ store.claims, one.operation = two.operation → one = two
  claimed : ∀ claim ∈ store.claims, ∃ version ∈ store.versions, version.claim = claim
  numbers : (store.drawn.map (·.1)).Nodup

/-- What one call does: every version and every late write it adds is its own. -/
structure Change (R : Rules T) (caller : Caller T) (before after : Shared T) : Prop where
  grown : Grown R.grows before after
  kept : Kept R before → Kept R after
  versions : ∀ version ∈ after.versions, version ∈ before.versions ∨ version.author.caller = caller
  late : ∀ write ∈ after.register.late, write ∈ before.register.late ∨ write.author.caller = caller

/-- What others do while a call waits: of the call's own writes, only a late one may land. -/
structure Others (R : Rules T) (caller : Caller T) (before after : Shared T) : Prop where
  grown : Grown R.grows before after
  versions : ∀ version ∈ after.versions, version.author.caller = caller →
    version ∈ before.versions ∨
    ∃ write ∈ before.register.late, version.key = write.key ∧ version.data = write.data
      ∧ version.author = write.author
  late : ∀ write ∈ after.register.late, write.author.caller = caller → write ∈ before.register.late

def sharedDuty (R : Rules T) (tag : Nat) (call : T.Calls.Op) :
    Duty (storeEffects T) (Shared T) where
  rely := fun _ before after => Others R (some (tag, call)) before after
  guarantee := Change R (some (tag, call))
  permits := fun op store => Kept R store ∧ R.may call op store

/-- The store at the beginning is kept. -/
theorem Original.kept {store : Shared T} (original : Original R store) : Kept R store where
  -- With nothing late, what holds of every version and every claim is all there is to keep.
  versions := fun version member =>
    Or.inl ⟨(original.versions version member).1, (original.versions version member).2.1,
    (original.versions version member).2.2.1⟩
  late := by simp [original.late]
  versionsDrawn := fun version member => (original.versions version member).2.2.2.1
  lateDrawn := by simp [original.late]
  claims := fun one first two second _ _ same => original.claims one first two second same
  ruled := by
    intro claim member
    obtain ⟨version, inside, same⟩ := original.claimed claim member
    exact Or.inl ⟨version, inside, (original.versions version inside).1, same⟩
  versionsClaimed := fun version member => (original.versions version member).2.2.2.2
  lateClaimed := by simp [original.late]
  numbers := original.numbers

/-- A store has grown into itself. -/
theorem Grown.refl (R : Rules T) (store : Shared T) : Grown R.grows store store :=
  ⟨.refl _, fun _ member => member, fun _ member => member, le_refl _, R.refl _⟩

/-- What grew twice has grown. -/
theorem Grown.trans {first second third : Shared T} (one : Grown R.grows first second)
    (two : Grown R.grows second third) :
    Grown R.grows first third where
  later := one.later.trans two.later
  claims := fun claim member => two.claims claim (one.claims claim member)
  drawn := fun pair member => two.drawn pair (one.drawn pair member)
  clock := one.clock.trans two.clock
  outside := R.trans one.outside two.outside

/-- Changing nothing is a change. -/
theorem Change.refl (store : Shared T) : Change R caller store store :=
  ⟨.refl R store, id, fun _ member => Or.inl member, fun _ member => Or.inl member⟩

/-- Others may change nothing. -/
theorem Others.refl (store : Shared T) : Others R caller store store :=
  ⟨.refl R store, fun _ member _ => Or.inl member, fun _ member _ => member⟩

/-- What others changed twice, others have changed. -/
theorem Others.trans {first second third : Shared T} (one : Others R caller first second)
    (two : Others R caller second third) : Others R caller first third where
  grown := one.grown.trans two.grown
  versions := by
    -- A version of the call's own was there before, or it landed in one of the two periods.
    intro version member own
    rcases two.versions version member own with old | ⟨write, inside, key, data, author⟩
    · exact one.versions version old own
    · exact Or.inr ⟨write, one.late write inside (author ▸ own), key, data, author⟩
  late := fun write member own => one.late write (two.late write member own) own

/-! ## What each operation keeps -/

/-- An author that was drawn stays drawn. -/
theorem Drawn.grow {before after : Shared T} {author : Author T.Operation (Caller T)}
    (drawn : Drawn before author) (grown : Grown R.grows before after) : Drawn after author :=
  fun number named => grown.drawn _ (drawn number named)

/-- A version stays regular as the store goes on. -/
theorem Regular.grow {before after : Shared T} {version : SharedVersion T}
    (regular : Regular R before version) (member : version ∈ before.versions)
    (grown : Grown R.grows before after) : Regular R after version := by
  -- What a version replaced does not change any more.
  have same : after.register.replaced version = before.register.replaced version := by
    simp only [Register.replaced, grown.later.past_eq member]
  rcases regular with ⟨nobody, absent, first⟩ | ⟨expected, rule, replaces⟩
  · exact Or.inl ⟨nobody, same.trans absent, first⟩
  · refine Or.inr ⟨expected, R.stable grown rule, ?_⟩
    cases expected with
    | some etag => simpa only [Replaces, same] using replaces
    | none =>
      intro old found
      obtain ⟨time, before, dead⟩ := replaces old (same ▸ found)
      exact ⟨time, before.trans grown.clock, dead⟩

/-- A claim that was ruled stays ruled. -/
theorem Ruled.grow {before after : Shared T} {claim : Claim T} (ruled : Ruled R before claim)
    (grown : Grown R.grows before after) : Ruled R after claim := by
  rcases ruled with ⟨version, member, rest⟩ | ⟨write, held, rule, same⟩
  · exact Or.inl ⟨version, grown.later.mem member, rest⟩
  · exact Or.inr ⟨write, held, R.stable grown rule, same⟩

/-- A store that differs in its late writes, numbers, time and outside only. -/
theorem Kept.of_versions {before after : Shared T} (kept : Kept R before)
    (grown : Grown R.grows before after) (versions : after.versions = before.versions)
    (late : ∀ write ∈ after.register.late, write ∈ before.register.late)
    (claims : after.claims = before.claims) (numbers : (after.drawn.map (·.1)).Nodup) :
    Kept R after where
  versions := by
    -- The versions and the claims are as they were, so their facts only grow with the store.
    intro version member
    rw [versions] at member
    exact (kept.versions version member).grow member grown
  late := fun write member => R.stable grown (kept.late write (late write member))
  versionsDrawn := by
    intro version member
    rw [versions] at member
    exact (kept.versionsDrawn version member).grow grown
  lateDrawn := fun write member => (kept.lateDrawn write (late write member)).grow grown
  claims := by
    rw [claims]
    exact kept.claims
  ruled := by
    rw [claims]
    exact fun claim member => (kept.ruled claim member).grow grown
  versionsClaimed := by
    rw [versions, claims]
    exact kept.versionsClaimed
  lateClaimed := by
    rw [claims]
    exact fun write member => kept.lateClaimed write (late write member)
  numbers := numbers

/-- The store after an operation is claimed, or may have been. -/
abbrev Shared.claim (store : Shared T) (write : SharedWrite T) (held : Bool) : Shared T :=
  { store with claims := claimOf write held :: store.claims }

/-- A claim makes the store grow. -/
theorem claim_grown (R : Rules T) (store : Shared T) (write : SharedWrite T) (held : Bool) :
    Grown R.grows store (store.claim write held) :=
  ⟨.refl _, fun _ member => List.mem_cons_of_mem _ member, fun _ member =>
    member, le_refl _, R.refl _⟩

/-- Claiming an operation that is not claimed for another write, or leaving it unknown whether it is
claimed. -/
theorem Kept.claim {store : Shared T} (kept : Kept R store) {write : SharedWrite T} {held : Bool}
    (free : held = true → ¬ store.Mismatched write) (rule : R.rule store write) :
    Kept R (store.claim write held) := by
  have grown := claim_grown R store write held
  -- An earlier claim of the operation is the same.
  have same : ∀ claim ∈ store.claims, held = true → claim.held = true →
    claim.operation = write.author.operation →
      claim = claimOf write held := by
    rintro ⟨operation, key, data, earlier⟩ member rfl isHeld rfl
    by_contra differs
    refine free rfl ⟨_, member, isHeld, rfl, fun equal => differs ?_⟩
    obtain ⟨rfl, rfl⟩ := equal
    cases isHeld
    rfl
  refine ⟨fun version member => (kept.versions version member).grow member grown,
    fun other member => R.stable grown (kept.late other member), kept.versionsDrawn,
      kept.lateDrawn, ?_, ?_,
    fun version member => List.mem_cons_of_mem _ (kept.versionsClaimed version member),
    fun other member => List.mem_cons_of_mem _ (kept.lateClaimed other member), kept.numbers⟩
  · intro one first two second one_ two_ operation
    rcases List.mem_cons.mp first with rfl | first
    · rcases List.mem_cons.mp second with rfl | second
      · rfl
      · exact (same two second one_ two_ operation.symm).symm
    · rcases List.mem_cons.mp second with rfl | second
      · exact same one first two_ one_ operation
      · exact kept.claims one first two second one_ two_ operation
  · intro claim member
    rcases List.mem_cons.mp member with rfl | old
    · exact Or.inr ⟨write, held, R.stable grown rule, rfl⟩
    · exact (kept.ruled claim old).grow grown

/-- The store after a write is carried out. -/
abbrev Shared.settle (store : Shared T) (write : SharedWrite T) : Shared T :=
  { store with register := (store.register.settle (T.live store.now) write).2 }

/-- Settling a write makes the store grow. -/
theorem settle_grown (R : Rules T) (store : Shared T) (write : SharedWrite T) :
    Grown R.grows store (store.settle write) :=
  ⟨Register.settle_later _ write, fun _ member => member, fun _ member => member, le_refl _, R.refl _⟩

/-- A write by the rule whose operation is claimed keeps the store regular. -/
theorem Kept.settle {store : Shared T} (kept : Kept R store) {write : SharedWrite T}
    (rule : R.rule store write) (drawn : Drawn store write.author)
    (claimed : claimOf write true ∈ store.claims) : Kept R (store.settle write) := by
  -- A settled write grows the store and leaves the late writes as they are.
  have grown := settle_grown R store write
  have late : (store.settle write).register.late = store.register.late :=
    Register.settle_late _ write
  refine ⟨fun version member => ?_, fun other member =>
    R.stable grown (kept.late other (late ▸ member)),
    fun version member => ?_, fun other member => kept.lateDrawn other (late ▸ member), kept.claims,
    fun claim member => (kept.ruled claim member).grow grown, fun version member => ?_, fun other member => kept.lateClaimed other (late ▸ member), kept.numbers⟩
  -- The versions: all are old, except for the one that the write puts on top.
  · rcases store.register.settle_cases (T.live store.now) write with same | ⟨revision, -, -, found, -, after⟩
    · have old : version ∈ store.versions := by rwa [Shared.versions, Shared.settle, same] at member
      exact (kept.versions version old).grow old grown
    · simp only [Shared.versions, after, Versions.put_list] at member
      rcases List.mem_cons.mp member with rfl | old
      · -- The new version replaces what the key had: what the write expected, unless expired.
        have replaced : (store.settle write).register.replaced
            ⟨write.key, write.data, store.register.versions.next, write.author⟩ = store.register.versions.current write.key := by
          simp only [Register.replaced, after]
          rw [Versions.past_of_cons (Versions.put_list _ _ _ _) rfl]
          rfl
        -- The rule was met when the write was made, and stays so as the store grows.
        refine Or.inr ⟨write.expected, R.stable grown rule, ?_⟩
        cases expected : write.expected with
        | some etag =>
          rw [expected, Option.map_eq_some_iff] at found
          obtain ⟨version, present, number⟩ := found
          simp only [Register.current, Option.filter_eq_some_iff] at present
          exact ⟨version, replaced.trans present.1, number⟩
        -- A write that expects nothing found either no version, or one that had expired.
        | none =>
          intro old present
          rw [replaced] at present
          refine ⟨store.now, le_refl _, ?_⟩
          rw [expected] at found
          simpa [Register.current, present] using found
      · exact (kept.versions version old).grow old grown
  -- The author of the new version is that of the write, which drew its operation.
  · rcases Register.settle_mem member with old | ⟨-, -, author⟩
    · exact kept.versionsDrawn version old
    · rw [author]
      exact drawn
  -- The new version has the operation, the key and the data that the write claimed.
  · rcases Register.settle_mem member with old | ⟨key, data, author⟩
    · exact kept.versionsClaimed version old
    · rw [SharedVersion.claim, author, key, data]
      exact claimed

/-- A write that is not carried out at once waits to land. -/
theorem Kept.wait {store : Shared T} (kept : Kept R store) {write : SharedWrite T}
    (rule : R.rule store write) (drawn : Drawn store write.author)
    (claimed : claimOf write true ∈ store.claims) :
    Kept R { store with
      register := { store.register with late := write :: store.register.late } } := by
  -- Only the list of late writes changes, so everything else grows trivially.
  have grown :
    Grown R.grows store { store with
      register := { store.register with late := write :: store.register.late } } :=
    ⟨.refl _, fun _ member => member, fun _ member => member, le_refl _, R.refl _⟩
  refine ⟨fun version member => (kept.versions version member).grow member grown,
    fun other member => ?_, kept.versionsDrawn,
    fun other member => ?_, kept.claims, fun claim member => (kept.ruled claim member).grow grown,
      kept.versionsClaimed,
    fun other member => ?_, kept.numbers⟩
  -- Each fact about late writes has one new case, which is the write itself.
  · rcases List.mem_cons.mp member with rfl | old
    · exact R.stable grown rule
    · exact R.stable grown (kept.late other old)
  · rcases List.mem_cons.mp member with rfl | old
    · exact drawn
    · exact kept.lateDrawn other old
  · rcases List.mem_cons.mp member with rfl | old
    · exact claimed
    · exact kept.lateClaimed other old

/-- Everything a compare-and-set can do. -/
theorem compareAndSet_cases (store : Shared T) (write : SharedWrite T) (claimed : Bool)
    (fate : Fate) :
    (store.compareAndSet write claimed fate).2 = store ∨
    (store.compareAndSet write claimed fate).2 = store.claim write false ∨
    (¬ store.Mismatched write
      ∧ ((store.compareAndSet write claimed fate).2 = store.claim write true ∨
      (store.compareAndSet write claimed fate).2 = (store.claim write true).settle write ∨
      (store.compareAndSet write claimed fate).2 = { store.claim write true with
        register := { store.register with late := write :: store.register.late } })) := by
  unfold Shared.compareAndSet
  -- The claim may come first, and then the write waits, is settled or is refused.
  split
  -- A write without a claim of its own never reaches the register.
  · cases fate with
    | unavailable => exact Or.inl rfl
    | answered => exact Or.inr (Or.inl rfl)
    | unknown landed => exact Or.inr (Or.inl rfl)
  split
  · exact Or.inl rfl
  -- The operation names no other write, so the register takes it.
  · rename_i free
    refine Or.inr (Or.inr ⟨free, ?_⟩)
    rcases store.register.compareAndSet_cases (T.live store.now) write fate with same | same | same
    · exact Or.inl (by simp only [same])
    · exact Or.inr (Or.inl (by simp only [same]))
    · exact Or.inr (Or.inr (by simp only [same]))

/-- What a call's own write does to the store, whatever becomes of it. -/
theorem write_change {write : SharedWrite T} {store : Shared T} (claimed : Bool) (fate : Fate)
    (rule : R.rule store write) (drawn : Drawn store write.author) :
    Change R write.author.caller store (store.compareAndSet write claimed fate).2 := by
  -- Each way a write can go changes the store by at most a claim and one version.
  rcases compareAndSet_cases store write claimed fate with same | same | ⟨free, same | same | same⟩
  · rw [same]
    exact .refl _
  · rw [same]
    exact ⟨claim_grown R store write false, fun kept => kept.claim (fun held => by cases held) rule,
      fun _ member => Or.inl member, fun _ member => Or.inl member⟩
  -- The claim is taken and nothing is written.
  · rw [same]
    exact ⟨claim_grown R store write true, fun kept => kept.claim (fun _ => free) rule,
      fun _ member => Or.inl member,
      fun _ member => Or.inl member⟩
  -- The claim is taken and the write carried out: the only new version is its own.
  · rw [same]
    have grown := claim_grown R store write true
    refine ⟨grown.trans (settle_grown R _ write), fun kept => ?_, fun version member =>
      ?_, fun other member => ?_⟩
    · exact (kept.claim (fun _ => free) rule).settle (R.stable grown rule) drawn List.mem_cons_self
    · exact (Register.settle_mem member).imp id fun new => congrArg Author.caller new.2.2
    · exact Or.inl ((Register.settle_late (T.live store.now) write) ▸ member)
  -- The claim is taken and the write is late: it joins the writes that wait.
  · rw [same]
    have grown := claim_grown R store write true
    refine ⟨⟨.refl _, grown.claims, grown.drawn, grown.clock, grown.outside⟩, fun kept =>
      ?_, fun _ member => Or.inl member,
      fun other member => ?_⟩
    · exact (kept.claim (fun _ => free) rule).wait (R.stable grown rule) drawn List.mem_cons_self
    · rcases List.mem_cons.mp member with rfl | old
      · exact Or.inr rfl
      · exact Or.inl old

/-- Looking an operation up changes nothing but late writes. -/
theorem resolve_change {store : Shared T} (key : T.Key) (operation : T.Operation) (fate : Fate) :
    Change R caller store { store with
      register := (store.register.resolve key operation fate).2 } := by
  obtain ⟨versions, late⟩ := store.register.resolve_cases key operation fate
  have grown :
    Grown R.grows store { store with register := (store.register.resolve key operation fate).2 } :=
    ⟨Versions.later_of_eq (congrArg Versions.list versions)
      (Nat.le_of_eq (congrArg Versions.next versions).symm),
      fun _ member => member, fun _ member => member, le_refl _, R.refl _⟩
  refine ⟨grown, fun kept =>
    kept.of_versions grown (congrArg Versions.list versions) late rfl kept.numbers,
    fun version member => Or.inl ?_, fun other member => Or.inl (late other member)⟩
  rwa [Shared.versions, versions] at member

/-- Every operation of a call keeps its duty, when its writes are by the rule. -/
theorem exec_change {op : StoreOp T} {choice : StoreChoice T} {store after : Shared T}
    {reply : op.Reply} (ran : execShared tag call op choice store = some (reply, after))
    (rule : ∀ key expected operation data, op = .compareAndSet key expected operation data →
      R.rule store ⟨key, expected, ⟨operation, some (tag, call)⟩, data⟩
      ∧ Drawn store ⟨operation, some (tag, call)⟩) :
    Change R (some (tag, call)) store after := by
  -- Only a write and a question to the outside change more than what a call knows.
  cases op with
  | read key =>
    simp only [execShared, Option.some.injEq, Prod.mk.injEq] at ran
    rw [← ran.2]
    exact .refl _
  | compareAndSet key expected operation data =>
    simp only [execShared, Option.some.injEq] at ran
    obtain ⟨rule, drawn⟩ := rule _ _ _ _ rfl
    have change := write_change (R := R) choice.claimed choice.fate rule drawn
    rw [ran] at change
    exact change
  | resolve key operation =>
    simp only [execShared, Option.some.injEq, Prod.mk.injEq] at ran
    rw [← ran.2]
    exact resolve_change key operation choice.fate
  | clock =>
    simp only [execShared, Option.some.injEq, Prod.mk.injEq] at ran
    rw [← ran.2]
    exact .refl _
  -- A draw is fresh, so the numbers stay distinct.
  | random =>
    simp only [execShared] at ran
    split at ran
    · cases ran
    rename_i fresh
    simp only [Option.some.injEq, Prod.mk.injEq] at ran
    obtain ⟨-, rfl⟩ := ran
    have grown :
      Grown R.grows store { store with
        drawn := (choice.random, some (tag, call)) :: store.drawn } :=
      ⟨.refl _, fun _ member => member, fun pair member => List.mem_cons_of_mem _ member,
        le_refl _, R.refl _⟩
    refine ⟨grown, fun kept => kept.of_versions grown rfl (fun _ member => member) rfl ?_,
      fun _ member => Or.inl member,
      fun _ member => Or.inl member⟩
    exact List.nodup_cons.mpr ⟨fresh, kept.numbers⟩
  -- A question changes the outside alone, in a way that the outside allows for.
  | ask question =>
    simp only [execShared, Option.map_eq_some_iff, Prod.mk.injEq] at ran
    obtain ⟨outside, answered, -, rfl⟩ := ran
    have grown : Grown R.grows store { store with outside := outside } :=
      ⟨.refl _, fun _ member => member, fun _ member => member, le_refl _, R.answered answered⟩
    exact ⟨grown, fun kept => kept.of_versions grown rfl (fun _ member => member) rfl kept.numbers,
      fun _ member => Or.inl member, fun _ member => Or.inl member⟩

/-- What the outside does keeps the store regular, and no call minds it. -/
theorem outside_change {store after : Shared T} {event : SharedEvent T}
    (happened : outsideShared event store = some after) :
    (Kept R store → Kept R after) ∧ ∀ caller, Others R caller store after := by
  cases event with
  -- The clock only goes forward.
  | clock now =>
    simp only [outsideShared, Option.ite_none_left_eq_some, Option.some.injEq] at happened
    obtain ⟨ahead, rfl⟩ := happened
    have grown : Grown R.grows store { store with now := now } :=
      ⟨.refl _, fun _ member => member, fun _ member => member, not_lt.mp ahead, R.refl _⟩
    exact ⟨fun kept => kept.of_versions grown rfl (fun _ member => member) rfl kept.numbers,
      fun _ => ⟨grown, fun _ member _ => Or.inl member, fun _ member _ => member⟩⟩
  -- A late write that lands is carried out, and leaves the list of those that wait.
  | land index =>
    simp only [outsideShared, Register.land, Option.map_map, Option.map_eq_some_iff] at happened
    obtain ⟨write, found, rfl⟩ := happened
    have inside : write ∈ store.register.late := List.mem_of_getElem? found
    have fewer : ∀ other ∈ store.register.late.eraseIdx index, other ∈ store.register.late :=
      fun other member => List.mem_of_mem_eraseIdx member
    have grown : Grown R.grows store { store with register :=
        { (store.register.settle (T.live store.now) write).2 with late := store.register.late.eraseIdx index } } :=
      ⟨Register.settle_later _ write, fun _ member => member, fun _ member => member, le_refl _, R.refl _⟩
    refine ⟨fun kept => ?_, fun caller =>
      ⟨grown, fun version member _ => ?_, fun other member _ => fewer other member⟩⟩
    · -- The write is carried out, and then it is no longer waiting.
      have settled := kept.settle (kept.late write inside) (kept.lateDrawn write inside)
        (kept.lateClaimed write inside)
      refine settled.of_versions ⟨.refl _, fun _ member => member, fun _ member =>
        member, le_refl _, R.refl _⟩ rfl
        (fun other member => ?_) rfl settled.numbers
      exact (Register.settle_late (T.live store.now) write).symm ▸ fewer other member
    -- A version that was not there before is that of the write that landed.
    · rcases Register.settle_mem member with old | ⟨key, data, author⟩
      · exact Or.inl old
      · exact Or.inr ⟨write, inside, key, data, author⟩
  -- An event of the outside leaves the register as it is.
  | happen event =>
    simp only [outsideShared, Option.map_eq_some_iff] at happened
    obtain ⟨outside, happened, rfl⟩ := happened
    have grown : Grown R.grows store { store with outside := outside } :=
      ⟨.refl _, fun _ member => member, fun _ member => member, le_refl _, R.happened happened⟩
    exact ⟨fun kept => kept.of_versions grown rfl (fun _ member => member) rfl kept.numbers,
      fun _ => ⟨grown, fun _ member _ => Or.inl member, fun _ member _ => member⟩⟩

/-! ## Histories -/

/-- A version of a key was there at first or replaced the version before it, in a store whose
records do not expire. -/
theorem Kept.history {store : Shared T} (kept : Kept R store)
    (lasts : ∀ time data, T.live time data = true) {version : SharedVersion T}
    (member : version ∈ store.versions) :
    (version.author.caller = none ∧ store.register.replaced version = none
      ∧ R.first version.key version.data) ∨
    (store.register.replaced version = none
      ∧ R.rule store ⟨version.key, none, version.author, version.data⟩) ∨
    ∃ old ∈ store.versions, old.key = version.key ∧ old.etag < version.etag
      ∧ store.register.replaced version = some old
      ∧ R.rule store ⟨version.key, some old.etag, version.author, version.data⟩ := by
  -- A version is an initial one, or stems from a write that met the rule.
  rcases kept.versions version member with initial | ⟨expected, rule, replaces⟩
  · exact Or.inl initial
  cases expected with
  -- A write that expects nothing replaced nothing, because no version expires.
  | none =>
    refine Or.inr (Or.inl ⟨?_, rule⟩)
    cases found : store.register.replaced version with
    | none => rfl
    | some old =>
      obtain ⟨time, -, dead⟩ := replaces old found
      rw [lasts] at dead
      cases dead
  -- A write that expects a version replaced exactly that one.
  | some etag =>
    obtain ⟨old, found, rfl⟩ := replaces
    obtain ⟨inside, key, earlier⟩ := Register.replaced_eq_some found
    exact Or.inr (Or.inr ⟨old, inside, key, earlier, found, rule⟩)

/-- What a version has and every replacement keeps, all later versions of its key have. -/
theorem Kept.since {store : Shared T} (kept : Kept R store)
    (lasts : ∀ time data, T.live time data = true) {earlier : SharedVersion T}
    (inside : earlier ∈ store.versions) (holds : SharedVersion T → Prop) (self : holds earlier)
    (step : ∀ old ∈ store.versions, ∀ new ∈ store.versions, new.key = earlier.key →
      earlier.etag ≤ old.etag → old.key = new.key → old.etag < new.etag →
      R.rule store ⟨new.key, some old.etag, new.author, new.data⟩ → holds old → holds new) :
    ∀ later ∈ store.versions, later.key = earlier.key → earlier.etag ≤ later.etag →
    holds later := by
  -- The induction is on the number of the later version.
  have general : ∀ bound, ∀ later ∈ store.versions, later.etag < bound → later.key = earlier.key →
      earlier.etag ≤ later.etag → holds later := by
    intro bound
    induction bound with
    | zero => exact fun later _ below => absurd below (Nat.not_lt_zero _)
    | succ bound ih =>
      intro later member below same order
      rcases Nat.lt_or_eq_of_le order with strict | equal
      · have present := Register.replaced_ne_none inside same.symm strict
        rcases kept.history lasts member
          with ⟨-, absent, -⟩ | ⟨absent, -⟩ | ⟨old, member', key, less, found, rule⟩
        · exact absurd absent present
        · exact absurd absent present
        · have between := Register.replaced_le found inside same.symm strict
          exact step old member' later member same between key less rule
            (ih old member' (by omega) (key.trans same) between)
      · rwa [← Versions.eq_of_etag inside member equal]
  exact fun later member => general _ later member (Nat.lt_succ_self _)

/-- What the first versions of the keys have and every replacement keeps, all versions have. -/
theorem Kept.all {store : Shared T} (kept : Kept R store)
    (lasts : ∀ time data, T.live time data = true) (holds : SharedVersion T → Prop)
    (initial : ∀ version ∈ store.versions, version.author.caller = none →
      R.first version.key version.data → holds version)
    (new : ∀ version ∈ store.versions,
      R.rule store ⟨version.key, none, version.author, version.data⟩ → holds version)
    (step : ∀ old ∈ store.versions, ∀ version ∈ store.versions, old.key = version.key →
      R.rule store ⟨version.key, some old.etag, version.author, version.data⟩ → holds old →
      holds version) :
    ∀ version ∈ store.versions, holds version := by
  -- The induction is on the number of the version.
  have general : ∀ bound, ∀ version ∈ store.versions, version.etag < bound → holds version := by
    intro bound
    induction bound with
    | zero => exact fun version _ below => absurd below (Nat.not_lt_zero _)
    | succ bound ih =>
      intro version member below
      rcases kept.history lasts member
        with ⟨nobody, -, first⟩ | ⟨-, rule⟩ | ⟨old, inside, key, less, -, rule⟩
      · exact initial version member nobody first
      · exact new version member rule
      · exact step old inside version member key rule (ih old inside (by omega))
  exact fun version member => general _ version member (Nat.lt_succ_self _)

/-! ## Claims -/

/-- An operation of a call claims at most its own write. -/
theorem exec_claims {op : StoreOp T} {choice : StoreChoice T} {store after : Shared T}
    {reply : op.Reply} (ran : execShared tag call op choice store = some (reply, after)) :
    after.claims = store.claims ∨
      ∃ key expected operation data held, op = .compareAndSet key expected operation data
        ∧ after.claims = ⟨operation, key, data, held⟩ :: store.claims := by
  -- Only a write adds a claim, whatever becomes of it, and it adds its own.
  cases op with
  | read key =>
    simp only [execShared, Option.some.injEq, Prod.mk.injEq] at ran
    rw [← ran.2]
    exact Or.inl rfl
  | compareAndSet key expected operation data =>
    simp only [execShared, Option.some.injEq] at ran
    have cases_ :=
      compareAndSet_cases store ⟨key, expected, ⟨operation, some (tag, call)⟩,
        data⟩ choice.claimed choice.fate
    rw [ran] at cases_
    -- A write answered as unavailable adds none; the others say whether the claim was held.
    rcases cases_ with same | same | ⟨-, same | same | same⟩
    · exact Or.inl (congrArg Shared.claims same)
    · exact Or.inr ⟨key, expected, operation, data, false, rfl, congrArg Shared.claims same⟩
    · exact Or.inr ⟨key, expected, operation, data, true, rfl, congrArg Shared.claims same⟩
    · exact Or.inr ⟨key, expected, operation, data, true, rfl, congrArg Shared.claims same⟩
    · exact Or.inr ⟨key, expected, operation, data, true, rfl, congrArg Shared.claims same⟩
  | resolve key operation =>
    simp only [execShared, Option.some.injEq, Prod.mk.injEq] at ran
    rw [← ran.2]
    exact Or.inl rfl
  | clock =>
    simp only [execShared, Option.some.injEq, Prod.mk.injEq] at ran
    rw [← ran.2]
    exact Or.inl rfl
  | random =>
    simp only [execShared, Option.ite_none_left_eq_some, Option.some.injEq, Prod.mk.injEq] at ran
    rw [← ran.2.2]
    exact Or.inl rfl
  | ask question =>
    simp only [execShared, Option.map_eq_some_iff, Prod.mk.injEq] at ran
    obtain ⟨outside, -, -, same⟩ := ran
    rw [← same]
    exact Or.inl rfl

/-- What happens outside claims nothing. -/
theorem outside_claims {store after : Shared T} {event : SharedEvent T}
    (happened : outsideShared event store = some after) :
    after.claims = store.claims := by
  -- No event from outside writes, so none adds a claim.
  cases event with
  | clock now =>
    simp only [outsideShared, Option.ite_none_left_eq_some, Option.some.injEq] at happened
    rw [← happened.2]
  | land index =>
    simp only [outsideShared, Option.map_eq_some_iff] at happened
    obtain ⟨register, -, same⟩ := happened
    rw [← same]
  | happen event =>
    simp only [outsideShared, Option.map_eq_some_iff] at happened
    obtain ⟨outside, -, same⟩ := happened
    rw [← same]

/-- Of some operations, all claims are for the same data. -/
def Alike (operations : T.Operation → Prop) (store : Shared T) : Prop :=
  ∀ one ∈ store.claims, ∀ two ∈ store.claims, operations one.operation →
    one.operation = two.operation → one.data = two.data

/-- When every write under such an operation is like those before it, all claims of it are alike. -/
theorem Alike.step {operations : T.Operation → Prop}
    {body : (call : T.Calls.Op) → StoreProgram T (T.Calls.Reply call)}
    {config after : Config (T.service body)} {move : Move (T.service body)}
    {answers : List (Answer (T.service body))} (alike : Alike operations config.store)
    (moved : step config move = some (after, answers))
    (agrees : ∀ thread choice tag call key expected operation data next client,
      move = .effect thread choice →
      config.threads thread = .busy tag call
      (.perform (.compareAndSet key expected operation data) next) client → operations operation →
      ∀ claim ∈ config.store.claims, claim.operation = operation → claim.data = data) :
    Alike operations after.store := by
  -- Claims are added by operations alone.
  rcases step_cases moved with ⟨thread, call, client, rfl, -, rfl, -⟩
    | ⟨thread, choice, tag, call, op, next, client, reply, store, rfl, busy, ran, rfl, -⟩ | ⟨event,
      store, rfl, happened, rfl, -⟩
  · exact alike
  · rcases exec_claims ran with same | ⟨key, expected, operation, data, held, rfl, same⟩
    · simp only [Alike, same]
      exact alike
    · -- The new claim is like the old ones of its operation.
      have like := agrees thread choice tag call key expected operation data next client rfl busy
      simp only [Alike, same]
      -- Two claims of one operation are both old, both the new one, or one of each.
      intro one first two second kind equal
      rcases List.mem_cons.mp first with rfl | first <;> rcases List.mem_cons.mp second
        with rfl | second
      · rfl
      · exact (like kind two second equal.symm).symm
      · rw [equal] at kind
        exact like kind one first equal
      · exact alike one first two second kind equal
  -- An event from outside adds no claim.
  · have same := outside_claims happened
    simp only [Alike, same]
    exact alike

/-! ## Writes -/

/-- The version is what the write has made. -/
structure MadeOf (version : SharedVersion T) (write : SharedWrite T) : Prop where
  key : version.key = write.key
  data : version.data = write.data
  author : version.author = write.author

/-- Settling a write adds at most one version, made of that write. -/
theorem settle_adds (store : Shared T) (write : SharedWrite T) :
    (store.settle write).versions = store.versions ∨
      ∃ version, (store.settle write).versions = version :: store.versions
        ∧ MadeOf version write := by
  rcases store.register.settle_cases (T.live store.now) write
    with same | ⟨revision, -, -, -, -, after⟩
  · exact Or.inl (congrArg (fun register => register.versions.list) same)
  · exact Or.inr ⟨⟨write.key, write.data, store.register.versions.next, write.author⟩,
      congrArg (fun register => register.versions.list) after, rfl, rfl, rfl⟩

/-- An operation of a call leaves the versions as they are, or it adds what its write has made. -/
theorem exec_versions {op : StoreOp T} {choice : StoreChoice T} {store after : Shared T}
    {reply : op.Reply} (ran : execShared tag call op choice store = some (reply, after)) :
    after.versions = store.versions ∨
      ∃ key expected operation data version, op = .compareAndSet key expected operation data
        ∧ after.versions = version :: store.versions
        ∧ MadeOf version ⟨key, expected, ⟨operation, some (tag, call)⟩, data⟩ := by
  -- Only a write that is carried out adds a version, and it adds one.
  cases op with
  | read key =>
    simp only [execShared, Option.some.injEq, Prod.mk.injEq] at ran
    rw [← ran.2]
    exact Or.inl rfl
  | compareAndSet key expected operation data =>
    simp only [execShared, Option.some.injEq] at ran
    have cases_ :=
      compareAndSet_cases store ⟨key, expected, ⟨operation, some (tag, call)⟩,
        data⟩ choice.claimed choice.fate
    rw [ran] at cases_
    rcases cases_ with rfl | rfl | ⟨-, rfl | same | rfl⟩
    · exact Or.inl rfl
    · exact Or.inl rfl
    · exact Or.inl rfl
    -- Carried out, the write adds its version, unless the register refuses it.
    · rcases settle_adds (store.claim ⟨key, expected, ⟨operation, some (tag, call)⟩, data⟩ true) _
        with kept | ⟨version, adds, made⟩
      · exact Or.inl ((congrArg Shared.versions same).trans kept)
      · exact Or.inr ⟨key, expected, operation, data, version, rfl,
          (congrArg Shared.versions same).trans adds, made⟩
    · exact Or.inl rfl
  | resolve key operation =>
    simp only [execShared, Option.some.injEq, Prod.mk.injEq] at ran
    rw [← ran.2]
    exact Or.inl (congrArg Versions.list (store.register.resolve_cases key operation choice.fate).1)
  | clock =>
    simp only [execShared, Option.some.injEq, Prod.mk.injEq] at ran
    rw [← ran.2]
    exact Or.inl rfl
  | random =>
    simp only [execShared, Option.ite_none_left_eq_some, Option.some.injEq, Prod.mk.injEq] at ran
    rw [← ran.2.2]
    exact Or.inl rfl
  | ask question =>
    simp only [execShared, Option.map_eq_some_iff, Prod.mk.injEq] at ran
    obtain ⟨outside, -, -, rfl⟩ := ran
    exact Or.inl rfl

/-- Outside the calls, only a late write adds to the versions. -/
theorem outside_versions {store after : Shared T} {event : SharedEvent T}
    (happened : outsideShared event store = some after) :
    after.versions = store.versions ∨ ∃ index write version, event = .land index
      ∧ store.register.late[index]? = some write
      ∧ after.versions = version :: store.versions ∧ MadeOf version write := by
  -- A late write that lands adds its version; the other events add none.
  cases event with
  | clock now =>
    simp only [outsideShared, Option.ite_none_left_eq_some, Option.some.injEq] at happened
    rw [← happened.2]
    exact Or.inl rfl
  | land index =>
    simp only [outsideShared, Register.land, Option.map_map, Option.map_eq_some_iff] at happened
    obtain ⟨write, found, rfl⟩ := happened
    rcases settle_adds store write with kept | ⟨version, adds, made⟩
    · exact Or.inl kept
    · exact Or.inr ⟨index, write, version, rfl, found, adds, made⟩
  | happen event =>
    simp only [outsideShared, Option.map_eq_some_iff] at happened
    obtain ⟨outside, -, rfl⟩ := happened
    exact Or.inl rfl

section

variable {body : (call : T.Calls.Op) → StoreProgram T (T.Calls.Reply call)}
    {config after : Config (T.service body)}
  {move : Move (T.service body)} {answers : List (Answer (T.service body))}

/-- The move may carry out the write: a call makes it, or it has been under way for longer. -/
inductive Writes (config : Config (T.service body)) : Move (T.service body) → SharedWrite T → Prop
  | now {thread tag call key expected operation data next client} (choice : StoreChoice T)
      (busy : config.threads thread = .busy tag call
        (.perform (.compareAndSet key expected operation data) next) client) :
      Writes config (.effect thread choice) ⟨key, expected, ⟨operation, some (tag, call)⟩, data⟩
  | late {index : Nat} {write : SharedWrite T}
    (waiting : config.store.register.late[index]? = some write) :
      Writes config (.outside (.land index)) write

/-- A move leaves the versions as they are, or it adds what a write has made. -/
theorem step_versions (moved : step config move = some (after, answers)) :
    Shared.versions after.store = Shared.versions config.store ∨ ∃ write version,
      Writes config move write
      ∧ Shared.versions after.store = version :: Shared.versions config.store
      ∧ MadeOf version write := by
  rcases step_cases moved with ⟨thread, call, client, rfl, -, rfl, -⟩
    | ⟨thread, choice, tag, call, op, next, client, reply, store, rfl, busy, ran, rfl, -⟩ | ⟨event,
      store, rfl, happened, rfl, -⟩
  · exact Or.inl rfl
  · rcases exec_versions ran with same | ⟨key, expected, operation, data, version, rfl, adds, made⟩
    · exact Or.inl same
    · exact Or.inr ⟨_, version, .now choice busy, adds, made⟩
  · rcases outside_versions happened with same | ⟨index, write, version, rfl, waiting, adds, made⟩
    · exact Or.inl same
    · exact Or.inr ⟨write, version, .late waiting, adds, made⟩

end

end Concurrent
