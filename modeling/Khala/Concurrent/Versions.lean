import Mathlib.Data.List.Nodup

/-! A key-value store that keeps every version it has held and numbers each write. -/

namespace Concurrent

/-- One write: what it stored under which key, its number, and who made it. -/
structure Version (K D A : Type) where
  key : K
  data : D
  etag : Nat
  author : A

/-- All versions, the newest first, with the number the next write gets. -/
structure Versions (K D A : Type) where
  list : List (Version K D A)
  next : Nat
  /-- Later versions have higher numbers. -/
  ordered : list.Pairwise fun later earlier => earlier.etag < later.etag
  below : ∀ version ∈ list, version.etag < next

namespace Versions

variable {K D A : Type}

/-- A store that has never been written to. -/
def empty : Versions K D A := ⟨[], 0, .nil, by simp⟩

/-- The store after one more write. -/
def put (store : Versions K D A) (key : K) (data : D) (author : A) : Versions K D A where
  list := ⟨key, data, store.next, author⟩ :: store.list
  next := store.next + 1
  ordered := List.pairwise_cons.mpr ⟨fun version member => store.below version member,
    store.ordered⟩
  below := by
    -- The new version has the old next number, and every old version is below it.
    intro version member
    rcases List.mem_cons.mp member with rfl | old
    · exact Nat.lt_succ_self _
    · exact Nat.lt_succ_of_lt (store.below version old)

/-- Uses up a number without writing. -/
def skip (store : Versions K D A) : Versions K D A where
  list := store.list
  next := store.next + 1
  ordered := store.ordered
  below := fun version member => Nat.lt_succ_of_lt (store.below version member)

/-- What is put comes first. -/
@[simp] theorem put_list (store : Versions K D A) (key : K) (data : D) (author : A) :
    (store.put key data author).list = ⟨key, data, store.next, author⟩ :: store.list := rfl

/-- Versions are told apart by their numbers. -/
theorem eq_of_etag {store : Versions K D A} {a b : Version K D A} (inA : a ∈ store.list)
    (inB : b ∈ store.list) (same : a.etag = b.etag) : a = b := by
  -- Strictly decreasing numbers are all different.
  have apart : (store.list.map (·.etag)).Nodup :=
    List.pairwise_map.mpr (store.ordered.imp fun less => (Nat.ne_of_lt less).symm)
  exact List.inj_on_of_nodup_map apart inA inB same

/-- One store is a later state of another: it has the same versions and before them newer ones,
whose numbers had not been used. -/
structure Later (old new : Versions K D A) : Prop where
  grows : ∃ more, new.list = more ++ old.list ∧ ∀ version ∈ more, old.next ≤ version.etag
  counts : old.next ≤ new.next

/-- A store comes after itself. -/
theorem Later.refl (store : Versions K D A) : Later store store :=
  ⟨⟨[], rfl, by simp⟩, Nat.le_refl _⟩

/-- What comes after what comes after comes after. -/
theorem Later.trans {first second third : Versions K D A} (one : Later first second)
    (two : Later second third) :
    Later first third := by
  -- Numbers unused in the second store were unused in the first.
  obtain ⟨more, shape, fresh⟩ := one.grows
  obtain ⟨most, shape', fresh'⟩ := two.grows
  refine ⟨⟨most ++ more, by rw [shape', shape, List.append_assoc], fun version member => ?_⟩,
    Nat.le_trans one.counts two.counts⟩
  rcases List.mem_append.mp member with late | early
  · exact Nat.le_trans one.counts (fresh' version late)
  · exact fresh version early

/-- A store is later than another when it has one more version. -/
theorem later_of_cons {old new : Versions K D A} {version : Version K D A}
    (shape : new.list = version :: old.list) (fresh : version.etag = old.next) : Later old new := by
  refine ⟨⟨[version], shape, by simp [fresh]⟩, ?_⟩
  -- The new version lies below the next number of the new store.
  have below := new.below version (by simp [shape])
  omega

/-- The same versions with a higher count come after. -/
theorem later_of_eq {old new : Versions K D A} (shape : new.list = old.list)
    (counts : old.next ≤ new.next) :
    Later old new :=
  ⟨⟨[], shape, by simp⟩, counts⟩

/-- A version is there later too. -/
theorem Later.mem {old new : Versions K D A} (later : Later old new) {version : Version K D A}
    (member : version ∈ old.list) : version ∈ new.list := by
  obtain ⟨more, shape, -⟩ := later.grows
  rw [shape]
  exact List.mem_append_right more member

/-- A number that was skipped is never given to a version. -/
theorem Later.skipped {old new : Versions K D A} (later : Later old.skip new)
    {version : Version K D A} (member : version ∈ new.list) : version.etag ≠ old.next := by
  -- Versions of the old store lie below the number, versions added since lie above it.
  obtain ⟨more, shape, fresh⟩ := later.grows
  rw [shape] at member
  rcases List.mem_append.mp member with added | kept
  · have above : old.next + 1 ≤ version.etag := fresh version added
    omega
  · exact Nat.ne_of_lt (old.below version kept)

/-- The versions that were there before the given one. -/
def past (store : Versions K D A) (version : Version K D A) : List (Version K D A) :=
  store.list.filter fun older => older.etag < version.etag

/-- What came before a version does not change any more. -/
theorem Later.past_eq {old new : Versions K D A} (later : Later old new) {version : Version K D A}
    (member : version ∈ old.list) : new.past version = old.past version := by
  -- The versions added since have higher numbers.
  obtain ⟨more, shape, fresh⟩ := later.grows
  have low := old.below version member
  have high : (more.filter fun older => older.etag < version.etag) = [] := by
    rw [List.filter_eq_nil_iff]
    intro added inside
    have above := fresh added inside
    simp only [decide_eq_true_eq]
    omega
  rw [past, past, shape, List.filter_append, high, List.nil_append]

/-- Before the version written last came all the others. -/
theorem past_of_cons {old new : Versions K D A} {version : Version K D A}
    (shape : new.list = version :: old.list) (fresh : version.etag = old.next) :
    new.past version = old.list := by
  rw [past, shape, List.filter_cons_of_neg (by simp), List.filter_eq_self]
  -- Every older version lies below the next number.
  intro older member
  simpa [fresh] using old.below older member

variable [DecidableEq K]

/-- The newest of the versions under a key. -/
def newest (list : List (Version K D A)) (key : K) : Option (Version K D A) :=
  list.find? fun version => version.key = key

/-- The version a key currently has. -/
def current (store : Versions K D A) (key : K) : Option (Version K D A) :=
  newest store.list key

/-- A version that is put is the newest of its key. -/
theorem newest_cons_self (version : Version K D A) (list : List (Version K D A)) :
    newest (version :: list) version.key = some version := by
  simp [newest]

/-- A version that is put leaves the newest of the other keys. -/
theorem newest_cons_of_ne {version : Version K D A} {key : K} (other : version.key ≠ key)
    (list : List (Version K D A)) : newest (version :: list) key = newest list key := by
  simp [newest, other]

/-- The newest version is one of the key's. -/
theorem mem_of_newest {list : List (Version K D A)} {key : K} {version : Version K D A}
    (found : newest list key = some version) : version ∈ list ∧ version.key = key := by
  -- The search returns a member that passes its test.
  refine ⟨List.mem_of_find?_eq_some found, ?_⟩
  simpa using List.find?_some found

/-- A key has no newest version exactly when it has none. -/
theorem newest_eq_none {list : List (Version K D A)} {key : K} :
    newest list key = none ↔ ∀ version ∈ list, version.key ≠ key := by
  simp [newest]

/-- No version of the key is newer than the newest. -/
theorem le_newest {list : List (Version K D A)}
    (ordered : list.Pairwise fun later earlier => earlier.etag < later.etag) {key : K}
    {version other : Version K D A} (found : newest list key = some version) (member : other ∈ list)
    (same : other.key = key) : other.etag ≤ version.etag := by
  -- The search stops at the first version of the key, and those behind it are older.
  obtain ⟨-, before, after, shape, skipped⟩ := List.find?_eq_some_iff_append.mp found
  rw [shape] at member ordered
  rcases List.mem_append.mp member with skip | rest
  · exact absurd same (by simpa using skipped other skip)
  · rcases List.mem_cons.mp rest with rfl | rest
    · exact Nat.le_refl _
    · have tail := (List.pairwise_append.mp ordered).2.1
      exact Nat.le_of_lt ((List.pairwise_cons.mp tail).1 other rest)

/-- A key that has a version keeps having one. -/
theorem newest_append {more list : List (Version K D A)} {key : K} {version : Version K D A}
    (found : newest (more ++ list) key = some version) :
    version ∈ more ∨ newest list key = some version := by
  -- Either one of the added versions is found first, or the search goes on as before.
  rw [newest, List.find?_append] at found
  cases first : more.find? fun version => version.key = key with
  | some inside =>
    rw [first, Option.some_or, Option.some.injEq] at found
    exact Or.inl (found ▸ List.mem_of_find?_eq_some first)
  | none =>
    rw [first, Option.none_or] at found
    exact Or.inr found

/-- A key whose current number comes back had that version all along. -/
theorem Later.unchanged {old mid new : Versions K D A} (one : Later old mid) (two : Later mid new)
    {key : K} {first last : Version K D A} (before : old.current key = some first)
    (after : new.current key = some last) (same : last.etag = first.etag) :
    mid.current key = some first := by
  -- The last version is the first one, so it is not among those added after the middle.
  have inOld := (mem_of_newest before).1
  have inNew := (mem_of_newest after).1
  obtain rfl : last = first := eq_of_etag inNew ((one.trans two).mem inOld) same
  obtain ⟨more, shape, -⟩ := two.grows
  have order := new.ordered
  rw [shape, List.pairwise_append] at order
  rw [current, shape] at after
  rcases newest_append after with added | kept
  · exact absurd (order.2.2 last added last (one.mem inOld)) (Nat.lt_irrefl _)
  · exact kept

end Versions

end Concurrent
