import Khala.Concurrent.Shared

/-! What a call knows of a shared store while others use it, and what holds in every run of such
calls. -/

namespace Concurrent

variable {T : Setting} {R : Rules T} {tag : Nat} {call : T.Calls.Op}
    {caller : Caller T} {α β : Type}

/-! ## Facts -/

/-- A fact that stays true as the store goes on. -/
def Persistent (R : Rules T) (known : Shared T → Prop) : Prop :=
  ∀ before after, Grown R.grows before after → known before → known after

/-- A fact that the other calls leave true. -/
def Stable (R : Rules T) (caller : Caller T) (known : Shared T → Prop) : Prop :=
  ∀ before after, Kept R after → Others R caller before after → known before → known after

/-- What lasts is stable. -/
theorem Persistent.stable {known : Shared T → Prop} (persistent : Persistent R known) :
    Stable R caller known :=
  fun before after _ others held => persistent before after others.grown held

/-- What always holds lasts. -/
theorem persistent_true : Persistent R fun _ => True := fun _ _ _ _ => trivial

/-- What always holds is stable. -/
theorem stable_true : Stable R caller fun _ => True := fun _ _ _ _ _ => trivial

/-- Two facts that last do so together. -/
theorem Persistent.and {first second : Shared T → Prop} (one : Persistent R first)
    (two : Persistent R second) :
    Persistent R fun store => first store ∧ second store :=
  fun before after grown held => ⟨one before after grown held.1, two before after grown held.2⟩

/-- Two facts that are stable are so together. -/
theorem Stable.and {first second : Shared T → Prop} (one : Stable R caller first)
    (two : Stable R caller second) :
    Stable R caller fun store => first store ∧ second store :=
  fun before after kept others held =>
    ⟨one before after kept others held.1, two before after kept others held.2⟩

/-- A fact about no store lasts. -/
theorem persistent_const (p : Prop) : Persistent R fun _ => p := fun _ _ _ held => held

/-- A time that is past stays past. -/
theorem persistent_clock (time : Int) : Persistent R fun store => time ≤ store.now :=
  fun _ _ grown held => held.trans grown.clock

/-- The key has had the data under the revision. -/
def HasVersion (key : T.Key) (revision : Nat) (data : T.Data) (store : Shared T) : Prop :=
  ∃ version ∈ store.versions, version.key = key ∧ version.etag = revision ∧ version.data = data

/-- A version stays as the store grows. -/
theorem HasVersion.grow {grows : T.Outside → T.Outside → Prop} {before after : Shared T}
    {key : T.Key} {revision : Nat} {data : T.Data} (has : HasVersion key revision data before)
    (grown : Grown grows before after) :
    HasVersion key revision data after := by
  obtain ⟨version, member, rest⟩ := has
  exact ⟨version, grown.later.mem member, rest⟩

/-- A revision of a key has one content. -/
theorem HasVersion.eq {key : T.Key} {data : T.Data} {store : Shared T} {version : SharedVersion T}
    (has : HasVersion key version.etag data store) (member : version ∈ store.versions) :
    data = version.data := by
  obtain ⟨other, inside, -, number, rfl⟩ := has
  rw [Versions.eq_of_etag inside member number]

/-- That there is a version lasts. -/
theorem persistent_hasVersion (key : T.Key) (revision : Nat) (data : T.Data) :
    Persistent R (HasVersion key revision data) :=
  fun _ _ grown has => has.grow grown

/-- The fact has held at some moment. -/
def Once (R : Rules T) (fact : Shared T → Prop) (store : Shared T) : Prop :=
  ∃ moment, Kept R moment ∧ Grown R.grows moment store ∧ fact moment

/-- What held once held once for good. -/
theorem persistent_once (fact : Shared T → Prop) : Persistent R (Once R fact) := by
  rintro before after grown ⟨moment, kept, until_, held⟩
  exact ⟨moment, kept, until_.trans grown, held⟩

/-- A fact that stays true and has held once holds. -/
theorem Persistent.of_once {fact : Shared T → Prop} (persistent : Persistent R fact)
    {store : Shared T} (once : Once R fact store) : fact store := by
  obtain ⟨moment, -, until_, held⟩ := once
  exact persistent moment store until_ held

/-! ## Programs -/

/-- What a program does as part of a call, from every store in which the fact is known. -/
abbrev Upholds (R : Rules T) (tag : Nat) (call : T.Calls.Op) (known : Shared T → Prop)
    (program : StoreProgram T α) (post : α → Shared T → Prop) : Prop :=
  Triple (execShared tag call) (sharedDuty R tag call) (Kept R) known program post

variable {known : Shared T → Prop}

/-- What the answer to a read tells. -/
def ReadTrue (key : T.Key) : ReadReply T.Data → Shared T → Prop
  | .record revision data, store =>
    ∃ version, store.register.current (T.live store.now) key = some version
      ∧ version.etag = revision ∧ version.data = data
  | .absent, store => store.register.current (T.live store.now) key = none
  | .unavailable, _ => True

/-- A record that was read is a version. -/
theorem ReadTrue.hasVersion {key : T.Key} {revision : Nat} {data : T.Data} {store : Shared T}
    (told : ReadTrue key (.record revision data) store) : HasVersion key revision data store := by
  obtain ⟨version, found, number, content⟩ := told
  simp only [Register.current, Option.filter_eq_some_iff] at found
  obtain ⟨member, same⟩ := Versions.mem_of_newest found.1
  exact ⟨version, member, same, number, content⟩

/-- A number that the caller has drawn and not used yet. -/
structure Fresh (caller : Caller T) (number : Nat) (store : Shared T) : Prop where
  drawn : (number, caller) ∈ store.drawn
  versions : ∀ version ∈ store.versions, T.nonce version.author.operation ≠ some number
  late : ∀ write ∈ store.register.late, T.nonce write.author.operation ≠ some number

/-- The operation of a write is used by nothing else. -/
structure Owns (write : SharedWrite T) (store : Shared T) : Prop where
  drawn : ∃ number, T.nonce write.author.operation = some number
    ∧ (number, write.author.caller) ∈ store.drawn
  versions : ∀ version ∈ store.versions, version.author.operation = write.author.operation →
    version.key = write.key ∧ version.data = write.data ∧ version.author = write.author
  late : ∀ other ∈ store.register.late, other.author.operation = write.author.operation →
    other = write

/-- Who drew a number is settled by the number. -/
theorem Kept.drawer {store : Shared T} (kept : Kept R store) {number : Nat} {one two : Caller T}
    (first : (number, one) ∈ store.drawn) (second : (number, two) ∈ store.drawn) : one = two :=
  congrArg Prod.snd (List.inj_on_of_nodup_map kept.numbers first second rfl)

/-- Others leave a number alone that the caller has drawn. -/
theorem stable_fresh (number : Nat) : Stable R caller (Fresh caller number) := by
  intro before after kept others fresh
  have drawn := others.grown.drawn _ fresh.drawn
  refine ⟨drawn, fun version member named => ?_, fun write member named => ?_⟩
  · -- A version with the number would be the caller's own, and it would have been there or waiting.
    have own := kept.drawer (kept.versionsDrawn version member number named) drawn
    rcases others.versions version member own with old | ⟨write, inside, -, -, author⟩
    · exact fresh.versions version old named
    · exact fresh.late write inside (author ▸ named)
  · have own := kept.drawer (kept.lateDrawn write member number named) drawn
    exact fresh.late write (others.late write member own) named

/-- A write under a fresh number has its operation to itself. -/
theorem Fresh.owns {number : Nat} {store : Shared T} (fresh : Fresh caller number store)
    {write : SharedWrite T} (own : write.author.caller = caller)
    (named : T.nonce write.author.operation = some number) : Owns write store where
  drawn := ⟨number, named, own ▸ fresh.drawn⟩
  versions := fun version member same => absurd (same ▸ named) (fresh.versions version member)
  late := fun other member same => absurd (same ▸ named) (fresh.late other member)

/-- A write keeps its operation to itself, whatever becomes of it. -/
theorem Owns.write {write : SharedWrite T} {store : Shared T} (owns : Owns write store)
    (claimed : Bool) (fate : Fate) :
    Owns write (store.compareAndSet write claimed fate).2 := by
  -- A write brings at most a version or a late write of its own operation.
  rcases compareAndSet_cases store write claimed fate with same | same | ⟨-, same | same | same⟩
  · rw [same]
    exact owns
  · rw [same]
    exact ⟨owns.drawn, owns.versions, owns.late⟩
  · rw [same]
    exact ⟨owns.drawn, owns.versions, owns.late⟩
  -- Carried out: a version under the operation is an old one or the one just made.
  · rw [same]
    refine ⟨owns.drawn, fun version member named => ?_, fun other member =>
      owns.late other (Register.settle_late (T.live store.now) write ▸ member)⟩
    rcases Register.settle_mem member with old | new
    · exact owns.versions version old named
    · exact new
  -- Late: the write that waits under the operation is this one.
  · rw [same]
    refine ⟨owns.drawn, owns.versions, fun other member named => ?_⟩
    rcases List.mem_cons.mp member with rfl | old
    · rfl
    · exact owns.late other old named

/-- A write that is answered as applied is there. -/
theorem compareAndSet_applied {store : Shared T} {write : SharedWrite T} {claimed : Bool}
    {fate : Fate} {revision : Nat} {data : T.Data}
    (applied : (store.compareAndSet write claimed fate).1 = .applied revision data) :
    ∃ version ∈ (store.compareAndSet write claimed fate).2.versions, version.key = write.key
      ∧ version.etag = revision
      ∧ version.data = write.data ∧ version.author.operation = write.author.operation := by
  -- Only a write that has claimed its operation can be answered so.
  unfold Shared.compareAndSet at applied ⊢
  split at applied
  · cases fate <;> cases applied
  split at applied
  · cases fate <;> cases applied
  · rename_i claimed_ free
    rw [if_neg claimed_, if_neg free]
    exact Register.compareAndSet_applied applied

/-- The key has had the data under the revision, by the operation. -/
def HasOperation (operation : T.Operation) (key : T.Key) (revision : Nat) (data : T.Data)
    (store : Shared T) : Prop :=
  ∃ version ∈ store.versions, version.key = key ∧ version.etag = revision ∧ version.data = data
    ∧ version.author.operation = operation

/-- That an operation has its version lasts. -/
theorem persistent_hasOperation (operation : T.Operation) (key : T.Key) (revision : Nat)
    (data : T.Data) :
    Persistent R (HasOperation operation key revision data) := by
  rintro before after grown ⟨version, member, rest⟩
  exact ⟨version, grown.later.mem member, rest⟩

/-- The version of an operation is a version. -/
theorem HasOperation.hasVersion {operation : T.Operation} {key : T.Key} {revision : Nat}
    {data : T.Data} {store : Shared T} (has : HasOperation operation key revision data store) :
    HasVersion key revision data store := by
  obtain ⟨version, member, same, number, content, -⟩ := has
  exact ⟨version, member, same, number, content⟩

/-- The write was tried at a moment when its operation was claimed for another. -/
def Blocked (R : Rules T) (call : T.Calls.Op) (write : SharedWrite T) : Shared T → Prop :=
  Once R fun store =>
    R.may call (.compareAndSet write.key write.expected write.author.operation write.data) store
    ∧ store.Mismatched write

/-- The write was tried, and its operation is claimed for it, may be, or was claimed for another. -/
def Tried (R : Rules T) (call : T.Calls.Op) (write : SharedWrite T) (store : Shared T) : Prop :=
  (∃ held, claimOf write held ∈ store.claims) ∨ Blocked R call write store

/-- That a call tried a write lasts. -/
theorem persistent_tried (call : T.Calls.Op) (write : SharedWrite T) :
    Persistent R (Tried R call write) := by
  rintro before after grown (⟨held, member⟩ | blocked)
  · exact Or.inl ⟨held, grown.claims _ member⟩
  · exact Or.inr (persistent_once _ _ _ grown blocked)

/-- What the reply to a write tells. -/
def WriteTrue (R : Rules T) (call : T.Calls.Op) (write : SharedWrite T) :
    WriteReply T.Data → Shared T → Prop
  | .applied revision data, store =>
    HasOperation write.author.operation write.key revision data store
      ∧ data = write.data ∧ Tried R call write store
  | .conflict current, store =>
    (∀ revision data, current = some (revision, data) → HasVersion write.key revision data store)
      ∧ (current = none → write.expected ≠ none) ∧ Tried R call write store
  | .operationMismatch, store => Blocked R call write store
  | .outcomeUnknown, store => Tried R call write store
  | .unavailable, _ => True

/-- What a register answers to a write whose operation is not claimed for another. -/
theorem settle_told {store : Shared T} (kept : Kept R store) {write : SharedWrite T}
    (free : ¬ store.Mismatched write) :
    (∃ revision, (store.register.settle (T.live store.now) write).1
      = .applied revision write.data) ∨
    ∃ current, (store.register.settle (T.live store.now) write).1 = .conflict current
      ∧ (∀ revision data, current = some (revision, data) →
        HasVersion write.key revision data store)
      ∧ (current = none → write.expected ≠ none) := by
  unfold Register.settle
  split
  · rename_i version found
    obtain ⟨member, own⟩ := Register.mem_of_written found
    -- The operation of a version is claimed for it.
    have same : version.key = write.key ∧ version.data = write.data := by
      by_contra differs
      exact free ⟨SharedVersion.claim version, kept.versionsClaimed version member,
        rfl, own, differs⟩
    rw [if_pos same, same.2]
    exact Or.inl ⟨_, rfl⟩
  · split
    · exact Or.inl ⟨_, rfl⟩
    · rename_i differs
      refine Or.inr ⟨_, rfl, fun revision data same => ?_, fun absent expected => ?_⟩
      · obtain ⟨version, found, same⟩ := Option.map_eq_some_iff.mp same
        cases same
        simp only [Register.current, Option.filter_eq_some_iff] at found
        obtain ⟨member, key⟩ := Versions.mem_of_newest found.1
        exact ⟨version, member, key, rfl, rfl⟩
      · rw [Option.map_eq_none_iff] at absent
        rw [absent, expected] at differs
        exact differs rfl

/-- What the reply to a compare-and-set tells of the store after it. -/
theorem compareAndSet_told {store : Shared T} (kept : Kept R store) (write : SharedWrite T)
    (claimed : Bool) (fate : Fate)
    (may : R.may call (.compareAndSet write.key write.expected write.author.operation write.data)
      store)
    (grown : Grown R.grows store (store.compareAndSet write claimed fate).2) :
    WriteTrue R call write (store.compareAndSet write claimed fate).1
      (store.compareAndSet write claimed fate).2 := by
  -- Without a claim the register was never asked, and the answer speaks of the claim alone.
  by_cases early : claimed = false
  · rw [Shared.compareAndSet, if_pos early]
    cases fate with
    | unavailable => trivial
    | answered => exact Or.inl ⟨false, List.mem_cons_self⟩
    | unknown landed => exact Or.inl ⟨false, List.mem_cons_self⟩
  -- A claim for another write blocks this one from then on.
  by_cases mismatched : store.Mismatched write
  · have blocked : Blocked R call write (store.compareAndSet write claimed fate).2 :=
      ⟨store, kept, grown, may, mismatched⟩
    rw [Shared.compareAndSet, if_neg early, if_pos mismatched] at blocked ⊢
    cases fate with
    | answered => exact blocked
    | unavailable => trivial
    | unknown landed => exact Or.inr blocked
  -- Otherwise the claim is held, which is what a lost answer leaves known.
  · have tried : Tried R call write (store.compareAndSet write claimed fate).2 := by
      rw [Shared.compareAndSet, if_neg early, if_neg mismatched]
      exact Or.inl ⟨true, List.mem_cons_self⟩
    cases fate with
    | unavailable =>
      rw [Shared.compareAndSet, if_neg early, if_neg mismatched]
      trivial
    | unknown landed =>
      rw [Shared.compareAndSet, if_neg early, if_neg mismatched] at tried ⊢
      cases landed <;> exact tried
    -- Answered: the reply is the register's own, so it tells what the register did.
    | answered =>
      have reply : (store.compareAndSet write claimed .answered).1
        = (store.register.settle (T.live store.now) write).1 := by
        rw [Shared.compareAndSet, if_neg early, if_neg mismatched]
        rfl
      rcases settle_told kept mismatched
        with ⟨revision, applied⟩ | ⟨current, conflict, known, absent⟩
      · have present := compareAndSet_applied (reply.trans applied)
        rw [reply, applied]
        obtain ⟨version, member, key, number, content, own⟩ := present
        exact ⟨⟨version, member, key, number, content, own⟩, rfl, tried⟩
      · rw [reply, conflict]
        exact ⟨fun revision data same => (known revision data same).grow grown, absent, tried⟩

/-- The caller has written the data under the revision. -/
def HasWritten (caller : Caller T) (operation : T.Operation) (key : T.Key) (revision : Nat)
    (data : T.Data) (store : Shared T) :
    Prop :=
  ∃ version ∈ store.versions, version.key = key ∧ version.etag = revision ∧ version.data = data
    ∧ version.author = ⟨operation, caller⟩

/-- That a caller has written lasts. -/
theorem persistent_hasWritten (operation : T.Operation) (key : T.Key) (revision : Nat)
    (data : T.Data) :
    Persistent R (HasWritten caller operation key revision data) := by
  rintro before after grown ⟨version, member, rest⟩
  exact ⟨version, grown.later.mem member, rest⟩

/-- A write that has its operation to itself and is answered as applied has been carried out for its
caller. -/
theorem Owns.applied {write : SharedWrite T} {store : Shared T} (owns : Owns write store)
    {claimed : Bool} {fate : Fate} {revision : Nat} {data : T.Data}
    (applied : (store.compareAndSet write claimed fate).1 = .applied revision data) :
    HasWritten write.author.caller write.author.operation write.key revision write.data
      (store.compareAndSet write claimed fate).2 := by
  obtain ⟨version, member, key, number, content, operation⟩ := compareAndSet_applied applied
  exact ⟨version, member, key, number, content,
    ((owns.write claimed fate).versions version member operation).2.2⟩

namespace Upholds

/-- Any operation; a write has to be by the rule. -/
theorem op {op : StoreOp T} (stable : Stable R (some (tag, call)) known)
    (rule : ∀ store, Kept R store → known store → R.may call op store →
      ∀ key expected operation data, op = .compareAndSet key expected operation data →
      R.rule store ⟨key, expected, ⟨operation, some (tag, call)⟩, data⟩
      ∧ Drawn store ⟨operation, some (tag, call)⟩) :
    Upholds R tag call known (@Program.call (storeEffects T) op) fun reply after =>
      ∃ store choice, Kept R store ∧ known store ∧ R.may call op store
        ∧ execShared tag call op choice store = some (reply, after)
        ∧ Change R (some (tag, call)) store after := by
  refine .call (fun before after permitted others held =>
    ⟨permitted.1, stable before after permitted.1 others held⟩)
    fun choice store reply after kept held permitted ran => ?_
  have change : Change R (some (tag, call)) store after :=
    exec_change ran (rule store kept held permitted.2)
  exact ⟨change, change.kept kept, store, choice, kept, held, permitted.2, ran, change⟩

/-- An operation that leaves the store alone. -/
theorem look {op : StoreOp T} {post : op.Reply → Shared T → Prop}
    (stable : Stable R (some (tag, call)) known)
    (looks : ∀ choice store reply after, Kept R store → known store → R.may call op store →
      execShared tag call op choice store = some (reply, after) → after = store
      ∧ post reply store) :
    Upholds R tag call known (@Program.call (storeEffects T) op) fun reply store =>
      known store ∧ post reply store := by
  refine .call (fun before after permitted others held =>
    ⟨permitted.1, stable before after permitted.1 others held⟩)
    fun choice store reply after kept held permitted ran => ?_
  obtain ⟨rfl, said⟩ := looks choice store reply after kept held permitted.2 ran
  exact ⟨.refl _, kept, held, said⟩

/-- A read, and what may be assumed of the moment of it. -/
theorem readNow (stable : Stable R (some (tag, call)) known) (key : T.Key) :
    Upholds R tag call known (StoreProgram.read key) fun reply store =>
      known store ∧ R.may call (.read key) store ∧ ReadTrue key reply store := by
  refine look stable fun choice store reply after _ _ may ran => ?_
  -- A read changes nothing, and its reply is what the register shows as current.
  simp only [execShared, Option.some.injEq, Prod.mk.injEq] at ran
  refine ⟨ran.2.symm, may, ?_⟩
  rw [← ran.1]
  cases choice.fate with
  | answered =>
    simp only [Register.read]
    cases found : store.register.current (T.live store.now) key with
    | none => exact found
    | some version => exact ⟨version, found, rfl, rfl⟩
  | unavailable => trivial
  | unknown landed => trivial

/-- A read tells a record of the moment. -/
theorem read (stable : Stable R (some (tag, call)) known) (key : T.Key) :
    Upholds R tag call known (StoreProgram.read key) fun reply store =>
      known store ∧ ReadTrue key reply store :=
  (readNow stable key).mono fun _ _ held => ⟨held.1, held.2.2⟩

/-- The clock tells the time of the moment. -/
theorem clock (stable : Stable R (some (tag, call)) known) :
    Upholds R tag call known StoreProgram.clock fun time store =>
      known store ∧ store.now = time := by
  refine look stable fun choice store reply after _ _ _ ran => ?_
  simp only [execShared, Option.some.injEq, Prod.mk.injEq] at ran
  exact ⟨ran.2.symm, ran.1⟩

/-- Drawing a number, which nothing uses yet. -/
theorem random (persistent : Persistent R known) :
    Upholds R tag call known StoreProgram.random fun number store =>
      known store ∧ Fresh (some (tag, call)) number store := by
  refine (op persistent.stable fun _ _ _ _ _ _ _ _ same => by cases same).mono
    fun number after said => ?_
  obtain ⟨store, choice, kept, held, -, ran, change⟩ := said
  refine ⟨persistent _ _ change.grown held, ?_⟩
  simp only [execShared] at ran
  split at ran
  · cases ran
  rename_i fresh
  simp only [Option.some.injEq, Prod.mk.injEq] at ran
  obtain ⟨rfl, rfl⟩ := ran
  -- Every number in the name of an operation was drawn before.
  have unused : ∀ caller, (choice.random, caller) ∉ store.drawn := fun caller member =>
    fresh (List.mem_map.mpr ⟨_, member, rfl⟩)
  exact ⟨List.mem_cons_self, fun version member named =>
    unused _ (kept.versionsDrawn version member _ named),
    fun write member named => unused _ (kept.lateDrawn write member _ named)⟩

/-- A question to the outside. -/
theorem ask (persistent : Persistent R known) (question : T.Questions.Op) :
    Upholds R tag call known (StoreProgram.ask question) fun reply after => known after ∧
      ∃ store, known store ∧ T.answer question reply store.outside = some after.outside
        ∧ after = { store with outside := after.outside } := by
  refine (op persistent.stable fun _ _ _ _ _ _ _ _ same => by cases same).mono
    fun reply after said => ?_
  obtain ⟨store, choice, kept, held, -, ran, change⟩ := said
  refine ⟨persistent _ _ change.grown held, store, held, ?_⟩
  simp only [execShared, Option.map_eq_some_iff, Prod.mk.injEq] at ran
  obtain ⟨outside, answered, rfl, rfl⟩ := ran
  exact ⟨answered, rfl⟩

/-- A write by the rule: what was known before it, what the store answered and what it became. -/
theorem compareAndSet (stable : Stable R (some (tag, call)) known) {key : T.Key}
    {expected : Option Nat} {operation : T.Operation} {data : T.Data}
    (rule : ∀ store, Kept R store → known store →
      R.may call (.compareAndSet key expected operation data) store →
      R.rule store ⟨key, expected, ⟨operation, some (tag, call)⟩, data⟩
      ∧ Drawn store ⟨operation, some (tag, call)⟩) :
    Upholds R tag call known (StoreProgram.compareAndSet key expected operation data)
      fun reply after =>
      ∃ store claimed fate, Kept R store ∧ known store
        ∧ R.may call (.compareAndSet key expected operation data) store
        ∧ Grown R.grows store after
        ∧ store.compareAndSet ⟨key, expected, ⟨operation, some (tag, call)⟩, data⟩ claimed fate
          = (reply, after) := by
  refine (op stable fun store kept held may key expected operation data same => ?_).mono
    fun reply after said => ?_
  · cases same
    exact rule store kept held may
  · obtain ⟨store, choice, kept, held, may, ran, change⟩ := said
    simp only [execShared, Option.some.injEq] at ran
    exact ⟨store, choice.claimed, choice.fate, kept, held, may, change.grown, ran⟩

/-- A write by the rule, and what its reply tells. -/
theorem write (persistent : Persistent R known) {key : T.Key} {expected : Option Nat}
    {operation : T.Operation} {data : T.Data}
    (rule : ∀ store, Kept R store → known store →
      R.may call (.compareAndSet key expected operation data) store →
      R.rule store ⟨key, expected, ⟨operation, some (tag, call)⟩, data⟩
      ∧ Drawn store ⟨operation, some (tag, call)⟩) :
    Upholds R tag call known (StoreProgram.compareAndSet key expected operation data)
      fun reply after =>
      known after
        ∧ WriteTrue R call ⟨key, expected, ⟨operation, some (tag, call)⟩, data⟩ reply after := by
  refine (compareAndSet persistent.stable rule).mono fun reply after said => ?_
  obtain ⟨store, claimed, fate, kept, held, may, grown, wrote⟩ := said
  have told :
    WriteTrue R call _ (store.compareAndSet ⟨key, expected, ⟨operation, some (tag, call)⟩,
      data⟩ claimed fate).1 _ :=
    compareAndSet_told kept _ claimed fate may (by rw [wrote]; exact grown)
  rw [wrote] at told
  exact ⟨persistent _ _ grown held, told⟩

/-- Looking up what an operation has written. -/
theorem resolve (persistent : Persistent R known) (key : T.Key) (operation : T.Operation) :
    Upholds R tag call known (StoreProgram.resolve key operation) fun reply after => known after ∧
      ∀ revision data, reply = .applied revision data →
      HasOperation operation key revision data after := by
  refine (op persistent.stable fun _ _ _ _ _ _ _ _ same => by cases same).mono
    fun reply after said => ?_
  obtain ⟨store, choice, kept, held, -, ran, change⟩ := said
  refine ⟨persistent _ _ change.grown held, fun revision data same => ?_⟩
  simp only [execShared, Option.some.injEq, Prod.mk.injEq] at ran
  obtain ⟨version, member, rest⟩ := Register.resolve_applied (ran.1.trans same)
  exact ⟨version, change.grown.later.mem member, rest⟩

end Upholds

/-! ## Runs -/

variable {body : (call : T.Calls.Op) → StoreProgram T (T.Calls.Reply call)}
  {post : Nat → (call : T.Calls.Op) → T.Calls.Reply call → Shared T → Prop}
  {start config after : Config (T.service body)} {log answers : List (Answer (T.service body))}
  {move : Move (T.service body)} {allowed : Config (T.service body) → Move (T.service body) → Prop}

/-- The store is kept, and every answer was true when it was given. -/
def sharedContract (R : Rules T) (body : (call : T.Calls.Op) → StoreProgram T (T.Calls.Reply call))
    (post : Nat → (call : T.Calls.Op) → T.Calls.Reply call → Shared T → Prop) :
    Contract (T.service body) where
  invariant := fun log _ store => Kept R store ∧ ∀ answer ∈ log,
  Once R (post answer.tag answer.call answer.reply) store
  duty := sharedDuty R
  answer := fun answer _ store => Kept R store ∧ post answer.tag answer.call answer.reply store

/-- Every operation of the moves allowed is one that may be performed. -/
def Respects (R : Rules T) (allowed : Config (T.service body) → Move (T.service body) → Prop) :
    Prop :=
  ∀ config thread choice tag call op next client, allowed config (.effect thread choice) →
    config.threads thread = .busy tag call (.perform op next) client → R.may call op config.store

/-- Calls that uphold their conditions one by one do so together. -/
theorem sharedContract_holds (respects : Respects R allowed)
    (safe : ∀ tag call, Upholds R tag call (fun _ => True) (body call) (post tag call)) :
    (sharedContract R body post).Holds allowed where
  refl := fun _ _ _ store => Others.refl store
  trans := fun _ _ _ _ _ _ one two => one.trans two
  begins := fun {log next store} call holds => ⟨safe next call store store holds.1 trivial, holds⟩
  works := fun tag call holds _ change =>
    ⟨change.kept holds.1, fun answer member =>
      persistent_once _ _ _ change.grown (holds.2 answer member)⟩
  rests := fun _ _ store => Change.refl store
  answers := by
    intro log next store after answer holds _ fresh change told
    refine ⟨told.1, fun other member => ?_⟩
    rcases List.mem_append.mp member with old | new
    · exact persistent_once _ _ _ change.grown (holds.2 other old)
    · rw [List.mem_singleton.mp new]
      exact ⟨after, told.1, .refl R _, told.2⟩
  outside := by
    intro log next store after event holds happened
    obtain ⟨kept, others⟩ := outside_change happened
    refine ⟨⟨kept holds.1, fun answer member => ?_⟩, fun _ _ _ => others _⟩
    exact persistent_once _ _ _ (others none).grown (holds.2 answer member)
  permitted := fun sound _ permitted busy =>
    ⟨sound.invariant.1, respects _ _ _ _ _ _ _ _ permitted busy⟩
  interferes := by
    intro log config thread choice tag call op next client other tag' call' op' next' client' after
      sound numbered
      permitted busy waiting apart ran change
    -- Two calls under way have different numbers, so what one writes is not the other's.
    have different : some (tag, call) ≠ some (tag', call') := by
      intro same
      cases same
      exact apart (numbered.distinct waiting busy)
    refine ⟨change.grown, fun version member own => ?_, fun write member own => ?_⟩
    · exact (change.versions version member).imp id fun mine =>
        absurd (mine.symm.trans own) different
    · exact (change.late write member).resolve_right fun mine => different (mine.symm.trans own)

/-- In every run the store is kept, and every answer was true at some moment. -/
theorem shared_run (respects : Respects R allowed)
    (safe : ∀ tag call, Upholds R tag call (fun _ => True) (body call) (post tag call))
    (idle : start.Idle) (kept : Kept R start.store) (run : Run allowed start log config) :
    Kept R config.store ∧ ∀ answer ∈ log,
      Once R (post answer.tag answer.call answer.reply) config.store :=
  ((sharedContract_holds respects safe).run idle ⟨kept, by simp⟩ run).invariant

/-- Every answer is true when it is given. -/
theorem shared_answers (respects : Respects R allowed)
    (safe : ∀ tag call, Upholds R tag call (fun _ => True) (body call) (post tag call))
    (idle : start.Idle) (kept : Kept R start.store) (run : Run allowed start log config)
    (permitted : allowed config move) (moved : step config move = some (after, answers)) :
    ∀ answer ∈ answers, Kept R after.store ∧ post answer.tag answer.call answer.reply after.store :=
  Contract.Sound.answered (sharedContract_holds respects safe)
    ((sharedContract_holds respects safe).run idle ⟨kept, by simp⟩ run)
    (run.numbered idle) permitted moved

/-- The store only grows. -/
theorem shared_grown (respects : Respects R allowed)
    (safe : ∀ tag call, Upholds R tag call (fun _ => True) (body call) (post tag call))
    (idle : start.Idle) (kept : Kept R start.store) (run : Run allowed start log config)
    (permitted : allowed config move) (moved : step config move = some (after, answers)) :
    Grown R.grows config.store after.store := by
  have sound := (sharedContract_holds respects safe).run idle ⟨kept, by simp⟩ run
  rcases step_cases moved with ⟨thread, call, client, rfl, -, rfl, -⟩
    | ⟨thread, choice, tag, call, op, next, client, reply, store, rfl, busy, ran, rfl, -⟩ | ⟨event,
      store, rfl, happened, rfl, -⟩
  · exact .refl R _
  · have change : Change R (some (tag, call)) config.store store :=
      sound.guaranteed (sharedContract_holds respects safe) (run.numbered idle) permitted busy ran
    exact change.grown
  · exact ((@outside_change T R _ _ _ happened).2 none).grown

/-- The call is under way or has been answered. -/
def Started {S : Service} (log : List (Answer S)) (config : Config S) (tag : Nat)
    (call : S.Calls.Op) : Prop :=
  (∃ answer ∈ log, answer.tag = tag ∧ answer.call = call) ∨ ∃ thread rest client,
    config.threads thread = .busy tag call rest client

/-- A call that has started has started from then on. -/
theorem Started.step {S : Service} {config after : Config S} {move : Move S}
    {log answers : List (Answer S)} {tag : Nat} {call : S.Calls.Op}
    (started : Started log config tag call)
    (moved : Concurrent.step config move = some (after, answers)) :
    Started (log ++ answers) after tag call := by
  rcases started with ⟨answer, member, rfl, rfl⟩ | ⟨thread, rest, client, busy⟩
  · exact Or.inl ⟨answer, List.mem_append_left _ member, rfl, rfl⟩
  -- Only a move of its own thread can end the call, and then it answers.
  have settles : ∀ (store : S.Store) (next : Nat) (rest : Program S.Effects (S.Calls.Reply call)),
      Started (log ++ (settle tag call client rest).2)
        ⟨store, Function.update config.threads thread (settle tag call client rest).1,
          next⟩ tag call := by
    intro store next rest
    rcases settle_cases tag call client rest with ⟨reply, -, settled⟩ | ⟨op, next', -, settled⟩
    · rw [settled]
      exact Or.inl ⟨⟨tag, call, reply⟩, by simp, rfl, rfl⟩
    · rw [settled]
      exact Or.inr ⟨thread, rest, client, Function.update_self ..⟩
  rcases step_cases moved with ⟨other, call', client', rfl, idle, rfl, rfl⟩
    | ⟨other, choice, tag', call', op, next, client', reply, store, rfl, busy', ran, rfl,
      rfl⟩ | ⟨event, store, rfl, happened, rfl, rfl⟩
  · have apart : thread ≠ other := by
      rintro rfl
      rw [busy] at idle
      cases idle
    exact Or.inr ⟨thread, rest, client, (Function.update_of_ne apart ..).trans busy⟩
  · by_cases same : thread = other
    · subst same
      rw [busy] at busy'
      cases busy'
      exact settles _ _ _
    · exact Or.inr ⟨thread, rest, client, (Function.update_of_ne same ..).trans busy⟩
  · exact Or.inr ⟨thread, rest, client, busy⟩

/-- Every version and every late write that a call has made belongs to a call that has started. -/
theorem shared_started (respects : Respects R allowed)
    (safe : ∀ tag call, Upholds R tag call (fun _ => True) (body call) (post tag call))
    (idle : start.Idle) (original : Original R start.store) (run : Run allowed start log config) :
    (∀ version ∈ config.store.versions, ∀ tag call, version.author.caller = some (tag, call) →
      Started log config tag call)
      ∧ ∀ write ∈ config.store.register.late, ∀ tag call, write.author.caller = some (tag, call) →
      Started log config tag call := by
  induction run with
  | nil =>
    refine ⟨fun version member tag call own => ?_, by simp [original.late]⟩
    rw [(original.versions version member).1] at own
    cases own
  | @step log config after move answers before permitted moved ih =>
    have sound := (sharedContract_holds respects safe).run idle ⟨original.kept, by simp⟩ before
    have numbered := before.numbered idle
    -- What the move adds to the store is the moving call's, or it was waiting.
    have added : (∀ version ∈ after.store.versions, version ∈ config.store.versions ∨
        (∃ write ∈ config.store.register.late, version.author = write.author) ∨
        ∃ tag call, version.author.caller = some (tag, call) ∧ Started log config tag call) ∧
        ∀ write ∈ after.store.register.late, write ∈ config.store.register.late ∨
          ∃ tag call, write.author.caller = some (tag, call) ∧ Started log config tag call := by
      rcases step_cases moved with ⟨thread, call', client, rfl, -, rfl, -⟩
        | ⟨thread, choice, tag', call', op, next, client, reply, store, rfl, busy, ran, rfl, -⟩
        | ⟨event, store, rfl, happened, rfl, -⟩
      · exact ⟨fun _ member => Or.inl member, fun _ member => Or.inl member⟩
      · have change : Change R (some (tag', call')) config.store store :=
          sound.guaranteed (sharedContract_holds respects safe) numbered permitted busy ran
        have running : Started log config tag' call' := Or.inr ⟨thread, _, client, busy⟩
        exact ⟨fun version member => (change.versions version member).imp id fun own =>
          Or.inr ⟨tag', call', own, running⟩,
          fun write member => (change.late write member).imp id fun own =>
            ⟨tag', call', own, running⟩⟩
      · have others := (@outside_change T R _ _ _ happened).2
        refine ⟨fun version member => ?_, fun write member => ?_⟩
        · cases own : version.author.caller with
          | none =>
            rcases (others none).versions version member own
              with old | ⟨write, inside, -, -, author⟩
            · exact Or.inl old
            · exact Or.inr (Or.inl ⟨write, inside, author⟩)
          | some pair =>
            rcases (others (some pair)).versions version member own
              with old | ⟨write, inside, -, -, author⟩
            · exact Or.inl old
            · exact Or.inr (Or.inl ⟨write, inside, author⟩)
        · exact Or.inl ((others write.author.caller).late write member rfl)
    refine ⟨fun version member tag call own => ?_, fun write member tag call own => ?_⟩
    · rcases added.1 version member
        with old | ⟨write, inside, author⟩ | ⟨tag', call', mine, started⟩
      · exact (ih.1 version old tag call own).step moved
      · exact (ih.2 write inside tag call (author ▸ own)).step moved
      · cases mine.symm.trans own
        exact started.step moved
    · rcases added.2 write member with old | ⟨tag', call', mine, started⟩
      · exact (ih.2 write old tag call own).step moved
      · cases mine.symm.trans own
        exact started.step moved

end Concurrent
