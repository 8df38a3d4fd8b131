import Khala.Concurrent.Versions

/-! A store with compare-and-set as its contract describes it: answers may be lost, and a write
whose answer was lost may land later. -/

namespace Concurrent

/-- Who writes: the operation's own name, and the caller behind it. -/
structure Author (O G : Type) where
  operation : O
  caller : G

/-- A write that lands only while its key is at the expected revision. -/
structure Write (K D O G : Type) where
  key : K
  expected : Option Nat
  author : Author O G
  data : D

/-- All versions written so far, and the writes of unknown outcome that may still land. -/
structure Register (K D O G : Type) where
  versions : Versions K D (Author O G)
  late : List (Write K D O G)

inductive ReadReply (D : Type)
  | absent
  | record (revision : Nat) (data : D)
  | unavailable

inductive WriteReply (D : Type)
  | applied (revision : Nat) (data : D)
  | conflict (current : Option (Nat × D))
  | operationMismatch
  | outcomeUnknown
  | unavailable

inductive ResolveReply (D : Type)
  | applied (revision : Nat) (data : D)
  | notApplied
  | outcomeUnknown
  | unavailable

/-- What becomes of a request: an unknown write has landed already, or it may land later. -/
inductive Fate
  | answered
  | unavailable
  | unknown (landed : Bool)
deriving DecidableEq

namespace Register

variable {K D O G : Type} [DecidableEq K] [DecidableEq D] [DecidableEq O] (live : D → Bool)

/-- The record a key has; one that has expired reads as absent. -/
def current (store : Register K D O G) (key : K) : Option (Version K D (Author O G)) :=
  (store.versions.current key).filter fun version => live version.data

/-- What an operation has written. -/
def written (store : Register K D O G) (operation : O) : Option (Version K D (Author O G)) :=
  store.versions.list.find? fun version => version.author.operation = operation

/-- Carries out a write. An operation that was carried out before is not repeated. -/
def settle (store : Register K D O G) (write : Write K D O G) : WriteReply D × Register K D O G :=
  match store.written write.author.operation with
  -- The operation has been made before: it is the same write, or a mismatch.
  | some version =>
    (if version.key = write.key ∧ version.data = write.data then .applied version.etag version.data
      else .operationMismatch, store)
  | none =>
    -- A new operation is made where the version is the one expected.
    if (store.current live write.key).map (·.etag) = write.expected then
      (.applied store.versions.next write.data,
        { store with versions := store.versions.put write.key write.data write.author })
    -- The conflict tells of the version that is there.
    else (.conflict ((store.current live write.key).map fun version =>
      (version.etag, version.data)), store)

def read (store : Register K D O G) (key : K) : Fate → ReadReply D
  | .answered =>
    match store.current live key with
    | some version => .record version.etag version.data
    | none => .absent
  | _ => .unavailable

def compareAndSet (store : Register K D O G) (write : Write K D O G) :
    Fate → WriteReply D × Register K D O G
  | .answered => store.settle live write
  | .unavailable => (.unavailable, store)
  | .unknown true => (.outcomeUnknown, (store.settle live write).2)
  | .unknown false => (.outcomeUnknown, { store with late := write :: store.late })

/-- An operation that proves not to have been carried out does not land any more. -/
def resolve (store : Register K D O G) (key : K) (operation : O) :
    Fate → ResolveReply D × Register K D O G
  | .answered =>
    match store.written operation with
    | some version =>
      if version.key = key then (.applied version.etag version.data, store)
      else (.notApplied, { store with late := store.late.filter fun write =>
        write.author.operation ≠ operation })
    | none => (.notApplied, { store with late := store.late.filter fun write =>
      write.author.operation ≠ operation })
  | .unavailable => (.unavailable, store)
  | .unknown _ => (.outcomeUnknown, store)

/-- One of the late writes lands, if it still can. -/
def land (store : Register K D O G) (index : Nat) : Option (Register K D O G) :=
  store.late[index]?.map fun write =>
    { (store.settle live write).2 with late := store.late.eraseIdx index }

/-! ## What a step can do -/

variable {live} {store : Register K D O G}

/-- A write that is carried out leaves the store alone or adds its version. -/
theorem settle_cases (live : D → Bool) (write : Write K D O G) :
    (store.settle live write).2 = store ∨
    (∃ revision, (store.settle live write).1 = .applied revision write.data
      ∧ revision = store.versions.next
      ∧ (store.current live write.key).map (·.etag) = write.expected
      ∧ store.written write.author.operation = none
      ∧ (store.settle live write).2
        = { store with versions := store.versions.put write.key write.data write.author }) := by
  -- Only an operation that is new and finds its revision writes.
  unfold settle
  split
  · exact Or.inl rfl
  · rename_i fresh
    split
    · rename_i found
      exact Or.inr ⟨_, rfl, rfl, found, fresh, rfl⟩
    · exact Or.inl rfl

omit [DecidableEq D] [DecidableEq O] in
/-- A read answers with the newest version of the key. -/
theorem read_eq_record {key : K} {fate : Fate} {revision : Nat} {data : D}
    (found : store.read live key fate = .record revision data) :
    ∃ version ∈ store.versions.list, version.key = key ∧ version.etag = revision
      ∧ version.data = data := by
  -- Only an answered read returns a record, and then it is the current version of the key.
  cases fate with
  | answered =>
    simp only [read] at found
    split at found
    · rename_i version present
      simp only [ReadReply.record.injEq] at found
      obtain ⟨rfl, rfl⟩ := found
      simp only [current, Option.filter_eq_some_iff] at present
      obtain ⟨member, same⟩ := Versions.mem_of_newest present.1
      exact ⟨version, member, same, rfl, rfl⟩
    · cases found
  | unavailable => cases found
  | unknown landed => cases found

omit [DecidableEq K] [DecidableEq D] in
/-- What an operation has written is one of the versions. -/
theorem mem_of_written {operation : O} {version : Version K D (Author O G)}
    (found : store.written operation = some version) :
    version ∈ store.versions.list ∧ version.author.operation = operation := by
  refine ⟨List.mem_of_find?_eq_some found, ?_⟩
  simpa using List.find?_some found

/-- A write that was carried out is one of the versions afterwards. -/
theorem settle_applied {write : Write K D O G} {revision : Nat} {data : D}
    (applied : (store.settle live write).1 = .applied revision data) :
    data = write.data ∧ ∃ version ∈ (store.settle live write).2.versions.list,
      version.key = write.key
      ∧ version.etag = revision ∧ version.data = write.data
      ∧ version.author.operation = write.author.operation := by
  -- The operation is found among the versions, or it has just been added to them.
  unfold settle at applied ⊢
  split at applied
  · rename_i version found
    split at applied
    · rename_i same
      simp only [WriteReply.applied.injEq] at applied
      obtain ⟨rfl, rfl⟩ := applied
      obtain ⟨member, own⟩ := mem_of_written found
      exact ⟨same.2, version, member, same.1, rfl, same.2, own⟩
    · cases applied
  · split at applied
    · rename_i found
      simp only [WriteReply.applied.injEq] at applied
      obtain ⟨rfl, rfl⟩ := applied
      rw [if_pos found]
      exact ⟨rfl, _, List.mem_cons_self, rfl, rfl, rfl, rfl⟩
    · cases applied

/-- A version that is there after a write was there before, or it is the write's. -/
theorem settle_mem {write : Write K D O G} {version : Version K D (Author O G)}
    (member : version ∈ (store.settle live write).2.versions.list) :
    version ∈ store.versions.list ∨
      (version.key = write.key ∧ version.data = write.data ∧ version.author = write.author) := by
  rcases store.settle_cases live write with same | ⟨revision, -, -, -, -, after⟩
  · rw [same] at member
    exact Or.inl member
  · rw [after] at member
    rcases List.mem_cons.mp member with rfl | old
    · exact Or.inr ⟨rfl, rfl, rfl⟩
    · exact Or.inl old

/-- Settling a write leaves the late ones. -/
theorem settle_late (live : D → Bool) (write : Write K D O G) :
    (store.settle live write).2.late = store.late := by
  rcases store.settle_cases live write with same | ⟨revision, -, -, -, -, after⟩
  · rw [same]
  · rw [after]

/-- Settling a write only adds a version. -/
theorem settle_later (live : D → Bool) (write : Write K D O G) :
    store.versions.Later (store.settle live write).2.versions := by
  rcases store.settle_cases live write with same | ⟨revision, -, -, -, -, after⟩
  · rw [same]; exact .refl _
  · rw [after]; exact Versions.later_of_cons rfl rfl

/-- A compare-and-set carries its write out, leaves it for later, or does nothing. -/
theorem compareAndSet_cases (live : D → Bool) (write : Write K D O G) (fate : Fate) :
    (store.compareAndSet live write fate).2 = store ∨
    (store.compareAndSet live write fate).2 = (store.settle live write).2 ∨
    (store.compareAndSet live write fate).2 = { store with late := write :: store.late } := by
  match fate with
  | .answered => exact Or.inr (Or.inl rfl)
  | .unavailable => exact Or.inl rfl
  | .unknown true => exact Or.inr (Or.inl rfl)
  | .unknown false => exact Or.inr (Or.inr rfl)

/-- A compare-and-set that says it was applied has been. -/
theorem compareAndSet_applied {write : Write K D O G} {fate : Fate} {revision : Nat} {data : D}
    (applied : (store.compareAndSet live write fate).1 = .applied revision data) :
    ∃ version ∈ (store.compareAndSet live write fate).2.versions.list, version.key = write.key
      ∧ version.etag = revision ∧ version.data = write.data
      ∧ version.author.operation = write.author.operation := by
  match fate with
  | .answered => exact (settle_applied applied).2
  | .unavailable => cases applied
  | .unknown true => cases applied
  | .unknown false => cases applied

omit [DecidableEq D] in
/-- Resolving an operation at most drops late writes. -/
theorem resolve_cases (key : K) (operation : O) (fate : Fate) :
    (store.resolve key operation fate).2.versions = store.versions ∧
      ∀ write ∈ (store.resolve key operation fate).2.late, write ∈ store.late := by
  match fate with
  | .answered =>
    simp only [resolve]
    split
    · split
      · exact ⟨rfl, fun _ member => member⟩
      · exact ⟨rfl, fun _ member => (List.mem_filter.mp member).1⟩
    · exact ⟨rfl, fun _ member => (List.mem_filter.mp member).1⟩
  | .unavailable => exact ⟨rfl, fun _ member => member⟩
  | .unknown landed => exact ⟨rfl, fun _ member => member⟩

omit [DecidableEq D] in
/-- An operation that is resolved as applied has written a version. -/
theorem resolve_applied {key : K} {operation : O} {fate : Fate} {revision : Nat} {data : D}
    (applied : (store.resolve key operation fate).1 = .applied revision data) :
    ∃ version ∈ store.versions.list, version.key = key ∧ version.etag = revision
      ∧ version.data = data
      ∧ version.author.operation = operation := by
  -- Only an answered question returns a version, and it is the one written under the operation.
  match fate with
  | .answered =>
    simp only [resolve] at applied
    split at applied
    · rename_i version found
      split at applied
      · rename_i same
        simp only [ResolveReply.applied.injEq] at applied
        obtain ⟨member, own⟩ := mem_of_written found
        exact ⟨version, member, same, applied.1, applied.2, own⟩
      · cases applied
    · cases applied
  | .unavailable => cases applied
  | .unknown landed => cases applied

/-! ## Histories in which every write replaces what it may -/

section History

variable {K D O G : Type} [DecidableEq K] {store : Register K D O G} {first : K → D → Prop}
  {permitted : D → Author O G → D → Prop}

/-- The write names a version that it may replace. -/
def Sourced (permitted : D → Author O G → D → Prop) (store : Register K D O G)
    (write : Write K D O G) : Prop :=
  ∃ old ∈ store.versions.list, old.key = write.key ∧ write.expected = some old.etag
    ∧ permitted old.data write.author write.data

/-- The version that a version replaced. -/
def replaced (store : Register K D O G) (version : Version K D (Author O G)) :
    Option (Version K D (Author O G)) :=
  Versions.newest (store.versions.past version) version.key

/-- Every version is the first of its key or may replace the one before it, and so may every late
write. -/
structure Chained (first : K → D → Prop) (permitted : D → Author O G → D → Prop)
    (store : Register K D O G) :
    Prop where
  versions : ∀ version ∈ store.versions.list,
    (store.replaced version = none ∧ first version.key version.data) ∨
    ∃ old, store.replaced version = some old ∧ permitted old.data version.author version.data
  late : ∀ write ∈ store.late, Sourced permitted store write

/-- The version replaced is an earlier one of the same key. -/
theorem replaced_eq_some {version old : Version K D (Author O G)}
    (found : store.replaced version = some old) :
    old ∈ store.versions.list ∧ old.key = version.key ∧ old.etag < version.etag := by
  obtain ⟨member, same⟩ := Versions.mem_of_newest found
  simp only [Versions.past, List.mem_filter, decide_eq_true_eq] at member
  exact ⟨member.1, same, member.2⟩

/-- No version of the key lies between a version and the one it replaced. -/
theorem replaced_le {version old other : Version K D (Author O G)}
    (found : store.replaced version = some old) (member : other ∈ store.versions.list)
    (same : other.key = version.key) (earlier : other.etag < version.etag) :
    other.etag ≤ old.etag := by
  -- What is replaced is the newest of the earlier versions.
  have inside : other ∈ store.versions.past version := by
    simp only [Versions.past, List.mem_filter, decide_eq_true_eq]
    exact ⟨member, earlier⟩
  exact Versions.le_newest (store.versions.ordered.filter _) found inside same

/-- The current version of a key is its newest. -/
theorem le_current {live : D → Bool} {key : K} {version other : Version K D (Author O G)}
    (found : store.current live key = some version) (member : other ∈ store.versions.list)
    (same : other.key = key) :
    other.etag ≤ version.etag := by
  rw [Register.current, Option.filter_eq_some_iff] at found
  exact Versions.le_newest store.versions.ordered found.1 member same

/-- The current version of a key is one of its versions. -/
theorem mem_of_current {live : D → Bool} {key : K} {version : Version K D (Author O G)}
    (found : store.current live key = some version) :
    version ∈ store.versions.list ∧ version.key = key := by
  rw [Register.current, Option.filter_eq_some_iff] at found
  exact Versions.mem_of_newest found.1

/-- A key that has nothing has never had anything, when nothing expires. -/
theorem none_of_current {live : D → Bool} (lasts : ∀ data, live data = true) {key : K}
    (absent : store.current live key = none) :
    ∀ version ∈ store.versions.list, version.key ≠ key := by
  refine Versions.newest_eq_none.mp ?_
  rw [Register.current, Option.filter_eq_none_iff] at absent
  exact Option.eq_none_iff_forall_not_mem.mpr fun version found => absent version found (lasts _)

/-- A version that is not the first of its key replaced one. -/
theorem replaced_ne_none {version other : Version K D (Author O G)}
    (member : other ∈ store.versions.list) (same : other.key = version.key)
    (earlier : other.etag < version.etag) : store.replaced version ≠ none := by
  intro absent
  rw [replaced, Versions.newest_eq_none] at absent
  refine absent other ?_ same
  simp only [Versions.past, List.mem_filter, decide_eq_true_eq]
  exact ⟨member, earlier⟩

omit [DecidableEq K] in
/-- A store with more versions still holds what a write may replace. -/
theorem Sourced.mono {later : Register K D O G} {write : Write K D O G}
    (sourced : Sourced permitted store write) (grown : store.versions.Later later.versions) :
    Sourced permitted later write := by
  obtain ⟨old, member, rest⟩ := sourced
  exact ⟨old, grown.mem member, rest⟩

/-- What holds of first versions and survives every write holds of every version. -/
theorem Chained.all (chained : Chained first permitted store) (holds : K → D → Prop)
    (initial : ∀ key data, first key data → holds key data)
    (kept : ∀ key old author new, holds key old → permitted old author new → holds key new) :
    ∀ version ∈ store.versions.list, holds version.key version.data := by
  -- The induction is on the number of the version.
  have general : ∀ bound version, version.etag < bound → version ∈ store.versions.list →
      holds version.key version.data := by
    intro bound
    induction bound with
    | zero => exact fun version below => absurd below (Nat.not_lt_zero _)
    | succ bound ih =>
      intro version below member
      rcases chained.versions version member with ⟨-, new⟩ | ⟨old, found, ok⟩
      · exact initial _ _ new
      · obtain ⟨inside, same, earlier⟩ := replaced_eq_some found
        have held := ih old (by omega) inside
        rw [same] at held
        exact kept _ _ _ _ held ok
  exact fun version member => general _ version (Nat.lt_succ_self _) member

/-- What every write keeps relates any two versions of a key. -/
theorem Chained.related (chained : Chained first permitted store) (related : D → D → Prop)
    (refl : ∀ data, related data data) (trans : ∀ {a b c}, related a b → related b c → related a c)
    (kept : ∀ old author new, permitted old author new → related old new)
    {earlier later : Version K D (Author O G)} (inside : earlier ∈ store.versions.list)
    (member : later ∈ store.versions.list) (same : earlier.key = later.key)
    (order : earlier.etag ≤ later.etag) :
    related earlier.data later.data := by
  -- The induction is on the number of the later version.
  have general : ∀ bound version, version.etag < bound → version ∈ store.versions.list →
      earlier.key = version.key → earlier.etag ≤ version.etag →
        related earlier.data version.data := by
    intro bound
    induction bound with
    | zero => exact fun version below => absurd below (Nat.not_lt_zero _)
    | succ bound ih =>
      intro version below member same order
      rcases Nat.lt_or_eq_of_le order with strict | equal
      · rcases chained.versions version member with ⟨absent, -⟩ | ⟨old, found, ok⟩
        · exact absurd absent (replaced_ne_none inside same strict)
        · obtain ⟨oldInside, oldSame, oldEarlier⟩ := replaced_eq_some found
          have between := replaced_le found inside same strict
          exact trans (ih old (by omega) oldInside (same.trans oldSame.symm) between)
            (kept _ _ _ ok)
      · rw [Versions.eq_of_etag inside member equal]
        exact refl _
  exact general _ later (Nat.lt_succ_self _) member same order

end History

variable {first : K → D → Prop} {permitted : D → Author O G → D → Prop}

/-- Carrying out a write that may replace what it expects keeps the history. -/
theorem Chained.settle (chained : Chained first permitted store) {write : Write K D O G}
    (sourced : Sourced permitted store write) :
    Chained first permitted (store.settle live write).2 := by
  -- Either the write changed nothing, or it put one version on top of what it expected.
  rcases store.settle_cases live write with same | ⟨revision, -, -, found, -, after⟩
  · rwa [same]
  · have grown := store.settle_later live write
    rw [after] at grown ⊢
    refine ⟨fun version member => ?_, fun other member => (chained.late other member).mono grown⟩
    rcases List.mem_cons.mp member with rfl | old
    · -- The new version replaces the version it expects.
      obtain ⟨old, inside, same, expected, ok⟩ := sourced
      refine Or.inr ⟨old, ?_, ok⟩
      rw [expected, Option.map_eq_some_iff] at found
      obtain ⟨version, present, number⟩ := found
      simp only [current, Option.filter_eq_some_iff] at present
      obtain rfl : version = old :=
        Versions.eq_of_etag (Versions.mem_of_newest present.1).1 inside number
      rw [replaced, Versions.past_of_cons (Versions.put_list _ _ _ _) rfl]
      exact present.1
    -- For an older version, the part of the list below it has not changed.
    · have past := grown.past_eq old
      simp only [replaced, past]
      exact chained.versions version old

end Register

end Concurrent
