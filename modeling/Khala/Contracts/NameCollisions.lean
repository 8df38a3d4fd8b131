import Khala.Contracts.FreeNames
import Khala.Js.Map
import Mathlib.Data.List.Find
import Mathlib.Data.List.Sort

/-! Which members of a channel share a name with someone who held it first. -/

namespace Khala

open Js

structure NamedMember (τ : Type) where
  id : Text
  name : Text
  since : Option τ

variable {τ : Type} [LinearOrder τ] (toLowerCase : Text → Text)

/-- Members without a time come after those with one, and members of one time keep their order. -/
def isOrdered (a b : NamedMember τ × Nat) : Bool :=
  match a.1.since, b.1.since with
  | some left, some right => left < right || (left == right && a.2 ≤ b.2)
  | some _, none => true
  | none, some _ => false
  | none, none => a.2 ≤ b.2

/-- The members with their places, in the order in which they took their names. -/
def orderedMembers (members : List (NamedMember τ)) : List (NamedMember τ × Nat) :=
  members.zipIdx.mergeSort isOrdered

structure Collisions where
  first : Map Text Text
  collisions : Map Text Text

/-- What the member with a name adds. -/
def collide (state : Collisions) (entry : NamedMember τ × Nat) : Collisions :=
  let member := entry.1
  let name := nameKey toLowerCase member.name
  if name = [] then state
  else
    match state.first.get name with
    | none => { state with first := state.first.set name member.id }
    | some holder => if holder ≠ member.id
      then { state with collisions := state.collisions.set member.id holder } else state

def nameCollisions (members : List (NamedMember τ)) : Map Text Text :=
  ((orderedMembers members).foldl (collide toLowerCase) ⟨.empty, .empty⟩).collisions

/-! ## The order -/

/-- One of two members of a list took its name first. -/
def Before (a b : NamedMember τ × Nat) : Prop := isOrdered a b = true ∧ a.2 ≠ b.2

variable {toLowerCase}

/-- Of two members one comes first, or they are level. -/
private theorem isOrdered_total (a b : NamedMember τ × Nat) :
    (isOrdered a b || isOrdered b a) = true := by
  unfold isOrdered
  cases a.1.since with
  | none => cases b.1.since <;> simp [Nat.le_total]
  | some left =>
    cases b.1.since with
    | none => rfl
    | some right =>
      rcases lt_trichotomy left right with less | rfl | more
      · simp [less]
      · simpa using Nat.le_total a.2 b.2
      · simp [more]

/-- The order of members is transitive. -/
private theorem isOrdered_trans (a b c : NamedMember τ × Nat) (first : isOrdered a b = true)
    (second : isOrdered b c = true) :
    isOrdered a c = true := by
  unfold isOrdered at *
  -- A member without a time comes after all that have one.
  cases left : a.1.since <;> cases middle : b.1.since <;> cases right : c.1.since
  all_goals
    simp only [left, middle, right, Bool.or_eq_true, Bool.and_eq_true, decide_eq_true_eq,
      beq_iff_eq, Bool.false_eq_true] at *
  · exact Nat.le_trans first second
  -- With times it is the lexical order of time and place.
  · rcases first with less | ⟨rfl, le⟩
    · rcases second with less' | ⟨rfl, -⟩
      · exact .inl (lt_trans less less')
      · exact .inl less
    · rcases second with less' | ⟨rfl, le'⟩
      · exact .inl less'
      · exact .inr ⟨rfl, Nat.le_trans le le'⟩

/-- Of two members, one comes first. -/
theorem before_or (a b : NamedMember τ × Nat) (differs : a.2 ≠ b.2) : Before a b ∨ Before b a := by
  have total := isOrdered_total a b
  rw [Bool.or_eq_true] at total
  exact total.imp (fun le => ⟨le, differs⟩) fun ge => ⟨ge, differs.symm⟩

/-- Of two members not both come first. -/
theorem Before.asymm {a b : NamedMember τ × Nat} (first : Before a b) : ¬ Before b a := by
  rintro ⟨back, -⟩
  -- Both ways would make them equal in time and place.
  obtain ⟨there, differs⟩ := first
  unfold isOrdered at there back
  cases left : a.1.since <;> cases right : b.1.since
  all_goals
    simp only [left, right, Bool.or_eq_true, Bool.and_eq_true, decide_eq_true_eq, beq_iff_eq,
      Bool.false_eq_true] at there back
  · exact differs (Nat.le_antisymm there back)
  · rcases there with less | ⟨rfl, le⟩
    · rcases back with more | ⟨same, -⟩
      · exact lt_asymm less more
      · exact absurd less (same ▸ lt_irrefl _)
    · rcases back with more | ⟨-, ge⟩
      · exact lt_irrefl _ more
      · exact differs (Nat.le_antisymm le ge)

variable {members : List (NamedMember τ)}

/-- The ordered members are the members with their places. -/
theorem mem_orderedMembers {m : NamedMember τ} {i : Nat} :
    (m, i) ∈ orderedMembers members ↔ members[i]? = some m := by
  rw [orderedMembers, List.mem_mergeSort, List.mem_zipIdx_iff_getElem?]

/-- Members come in order. -/
theorem pairwise_orderedMembers (members : List (NamedMember τ)) :
    (orderedMembers members).Pairwise Before := by
  have sorted := List.pairwise_mergeSort isOrdered_trans isOrdered_total members.zipIdx
  have places : ((orderedMembers members).map Prod.snd).Nodup := by
    have perm := (List.mergeSort_perm members.zipIdx isOrdered).map Prod.snd
    refine perm.nodup_iff.mpr ?_
    rw [List.zipIdx_map_snd]
    exact List.nodup_range'
  rw [List.nodup_iff_pairwise_ne, List.pairwise_map] at places
  exact sorted.and places

/-! ## The first holders -/

variable (toLowerCase)

/-- The first of some entries whose name has a key. -/
def holderIn (entries : List (NamedMember τ × Nat)) (key : Text) : Option Text :=
  (entries.find? fun entry => nameKey toLowerCase entry.1.name == key).map (·.1.id)

/-- Someone else held the entry's name first. -/
def isLate (entries : List (NamedMember τ × Nat)) (entry : NamedMember τ × Nat) : Bool :=
  nameKey toLowerCase entry.1.name != []
    && (holderIn toLowerCase entries (nameKey toLowerCase entry.1.name)).any (· ≠ entry.1.id)

variable {toLowerCase}

omit [LinearOrder τ] in
/-- One more member holds a name that nobody before it holds. -/
private theorem holderIn_concat (entries : List (NamedMember τ × Nat)) (entry : NamedMember τ × Nat)
    (key : Text) :
    holderIn toLowerCase (entries ++ [entry]) key
      = (holderIn toLowerCase entries key).or (if nameKey toLowerCase entry.1.name = key
        then some entry.1.id else none) := by
  rw [holderIn, holderIn, List.find?_append]
  cases entries.find? fun entry => nameKey toLowerCase entry.1.name == key with
  | some found => rfl
  | none => by_cases same : nameKey toLowerCase entry.1.name = key <;> simp [same]

omit [LinearOrder τ] in
/-- Every entry's name is held by an entry. -/
private theorem holderIn_isSome {entries : List (NamedMember τ × Nat)} {entry : NamedMember τ × Nat}
    (inside : entry ∈ entries) :
    (holderIn toLowerCase entries (nameKey toLowerCase entry.1.name)).isSome = true := by
  rw [holderIn, Option.isSome_map, List.find?_isSome]
  exact ⟨entry, inside, beq_self_eq_true _⟩

omit [LinearOrder τ] in
/-- An entry that was late stays late, and the same one held its name first. -/
private theorem holderIn_kept {entries : List (NamedMember τ × Nat)} {entry : NamedMember τ × Nat}
    (inside : entry ∈ entries) (more : NamedMember τ × Nat) :
    holderIn toLowerCase (entries ++ [more]) (nameKey toLowerCase entry.1.name)
      = holderIn toLowerCase entries (nameKey toLowerCase entry.1.name) := by
  rw [holderIn_concat]
  obtain ⟨holder, found⟩ := Option.isSome_iff_exists.mp (@holderIn_isSome _ toLowerCase _ _ inside)
  rw [found]
  rfl

omit [LinearOrder τ] in
/-- Whether a member is late does not depend on those behind it. -/
private theorem isLate_kept {entries : List (NamedMember τ × Nat)} {entry : NamedMember τ × Nat}
    (inside : entry ∈ entries) (more : NamedMember τ × Nat) :
    isLate toLowerCase (entries ++ [more]) entry = isLate toLowerCase entries entry := by
  rw [isLate, isLate, holderIn_kept inside]

variable (toLowerCase)

/-- Whose name an id's last late entry has. -/
def collisionOf (entries : List (NamedMember τ × Nat)) (id : Text) : Option Text :=
  (entries.reverse.find? fun entry => entry.1.id == id && isLate toLowerCase entries entry).bind
    fun entry =>
    holderIn toLowerCase entries (nameKey toLowerCase entry.1.name)

variable {toLowerCase}

omit [LinearOrder τ] in
/-- One more member adds its own collision at most. -/
private theorem collisionOf_concat (entries : List (NamedMember τ × Nat))
    (entry : NamedMember τ × Nat) (id : Text) :
    collisionOf toLowerCase (entries ++ [entry]) id
      = if entry.1.id = id ∧ isLate toLowerCase (entries ++ [entry]) entry = true then
          holderIn toLowerCase (entries ++ [entry]) (nameKey toLowerCase entry.1.name)
        else collisionOf toLowerCase entries id := by
  -- Whether an earlier entry is late does not depend on the new one.
  have kept :
    entries.reverse.find? (fun other =>
      other.1.id == id && isLate toLowerCase (entries ++ [entry]) other)
      = entries.reverse.find? fun other => other.1.id == id && isLate toLowerCase entries other :=
    List.find?_congr fun other inside => by rw [isLate_kept (List.mem_reverse.mp inside)]
  rw [collisionOf, List.reverse_append, List.reverse_singleton, List.singleton_append,
    List.find?_cons, kept]
  -- The new entry decides where it is of the identifier asked for and late.
  by_cases hit : entry.1.id = id ∧ isLate toLowerCase (entries ++ [entry]) entry = true
  · rw [if_pos hit, hit.2, beq_iff_eq.mpr hit.1]
    rfl
  -- Otherwise the last late one before it decides, whose holder has not changed.
  · have miss : (entry.1.id == id && isLate toLowerCase (entries ++ [entry]) entry) = false := by
      rw [Bool.eq_false_iff]
      intro both
      rw [Bool.and_eq_true, beq_iff_eq] at both
      exact hit both
    rw [if_neg hit, miss, collisionOf]
    cases found : entries.reverse.find? fun other =>
      other.1.id == id && isLate toLowerCase entries other with
    | none => rfl
    | some other =>
      exact holderIn_kept (List.mem_reverse.mp (List.mem_of_find?_eq_some found)) entry

variable (toLowerCase)

/-- What has been found out after some of the entries. -/
structure Collisions.After (entries : List (NamedMember τ × Nat)) (state : Collisions) : Prop where
  first : ∀ key, key ≠ [] → state.first.get key = holderIn toLowerCase entries key
  collisions : ∀ id, state.collisions.get id = collisionOf toLowerCase entries id

variable {toLowerCase}

omit [LinearOrder τ] in
/-- One more entry is found out about. -/
private theorem after_collide {entries : List (NamedMember τ × Nat)} {state : Collisions}
    (after : state.After toLowerCase entries) (entry : NamedMember τ × Nat) :
    (collide toLowerCase state entry).After toLowerCase (entries ++ [entry]) := by
  simp only [collide]
  by_cases nameless : nameKey toLowerCase entry.1.name = []
  · rw [if_pos nameless]
    have notLate :
      isLate toLowerCase (entries ++ [entry]) entry = false := by simp [isLate, nameless]
    refine ⟨fun key some_ => ?_, fun id => ?_⟩
    · rw [holderIn_concat, if_neg fun same => some_ (same.symm.trans nameless), Option.or_none]
      exact after.first key some_
    · rw [collisionOf_concat, notLate, if_neg fun both => Bool.false_ne_true both.2]
      exact after.collisions id
  · rw [if_neg nameless, after.first _ nameless]
    have whole := @holderIn_concat _ toLowerCase entries entry (nameKey toLowerCase entry.1.name)
    rw [if_pos rfl] at whole
    cases found : holderIn toLowerCase entries (nameKey toLowerCase entry.1.name) with
    | none =>
      -- The entry is the first with its name, and stands in its own way as little as in anyone's.
      rw [found] at whole
      have notLate :
        isLate toLowerCase (entries ++ [entry]) entry = false := by simp [isLate, whole]
      refine ⟨fun key some_ => ?_, fun id => ?_⟩
      · rw [holderIn_concat, Map.get_set]
        by_cases same : nameKey toLowerCase entry.1.name = key
        · rw [if_pos same.symm, if_pos same, ← same, found]
          rfl
        · rw [if_neg (Ne.symm same), if_neg same, Option.or_none]
          exact after.first key some_
      · rw [collisionOf_concat, notLate, if_neg fun both => Bool.false_ne_true both.2]
        exact after.collisions id
    | some holder =>
      rw [found] at whole
      have first : ∀ key, key ≠ [] →
        state.first.get key = holderIn toLowerCase (entries ++ [entry]) key := by
        intro key some_
        rw [holderIn_concat, after.first key some_]
        by_cases same : nameKey toLowerCase entry.1.name = key
        · rw [← same, found]
          rfl
        · rw [if_neg same, Option.or_none]
      by_cases own : holder = entry.1.id
      · have notLate :
          isLate toLowerCase (entries ++ [entry]) entry = false := by simp [isLate, whole, own]
        simp only [ne_eq, own, not_true_eq_false, if_false]
        refine ⟨first, fun id => ?_⟩
        rw [collisionOf_concat, notLate, if_neg fun both => Bool.false_ne_true both.2]
        exact after.collisions id
      · have late :
          isLate toLowerCase (entries ++ [entry]) entry
          = true := by simp [isLate, whole, own, nameless]
        simp only [ne_eq, own, not_false_eq_true, if_true]
        refine ⟨first, fun id => ?_⟩
        rw [collisionOf_concat, Map.get_set, late, whole]
        by_cases same : entry.1.id = id
        · rw [if_pos same.symm, if_pos ⟨same, rfl⟩]
          rfl
        · rw [if_neg (Ne.symm same), if_neg fun both => same both.1]
          exact after.collisions id

/-- The collisions of a list of members are those of its entries in order. -/
theorem get_nameCollisions (members : List (NamedMember τ)) (id : Text) :
    (nameCollisions toLowerCase members).get id = collisionOf toLowerCase
    (orderedMembers members) id := by
  have all : ∀ entries : List (NamedMember τ × Nat),
      (entries.foldl (collide toLowerCase) ⟨.empty, .empty⟩).After toLowerCase entries := by
    intro entries
    induction entries using List.reverseRecOn with
    | nil => exact ⟨fun _ _ => rfl, fun _ => rfl⟩
    | append_singleton entries entry ih =>
      rw [List.foldl_append]
      exact after_collide ih entry
  exact (all _).collisions id

/-! ## Members and their places -/

variable (toLowerCase)

/-- A member of a list who held a name before everyone else. -/
structure FirstHolder (members : List (NamedMember τ)) (key : Text) (j : Nat)
    (holder : NamedMember τ) : Prop where
  there : members[j]? = some holder
  holds : nameKey toLowerCase holder.name = key
  first : ∀ i other, members[i]? = some other → nameKey toLowerCase other.name = key →
    ¬ Before (other, i) (holder, j)

/-- Someone else held the member's name first, under the id. -/
def Late (members : List (NamedMember τ)) (m : NamedMember τ) (id : Text) : Prop :=
  nameKey toLowerCase m.name ≠ [] ∧ id ≠ m.id
    ∧ ∃ j holder, FirstHolder toLowerCase members (nameKey toLowerCase m.name) j holder
    ∧ holder.id = id

variable {toLowerCase}

/-- A name has one first holder. -/
theorem FirstHolder.unique {key : Text} {i j : Nat} {one two : NamedMember τ}
    (first : FirstHolder toLowerCase members key i one)
    (first' : FirstHolder toLowerCase members key j two) : i = j ∧ one = two := by
  have same : i = j := by
    by_contra differs
    rcases before_or (one, i) (two, j) differs with before | before
    · exact first'.first i one first.there first.holds before
    · exact first.first j two first'.there first'.holds before
  subst same
  exact ⟨rfl, Option.some.inj (first.there.symm.trans first'.there)⟩

/-- The first of the ordered members with a name is its first holder. -/
private theorem firstHolder_of_find? {key : Text} {entry : NamedMember τ × Nat}
    (found : ((orderedMembers members).find? fun entry => nameKey toLowerCase entry.1.name == key)
      = some entry) :
    FirstHolder toLowerCase members key entry.2 entry.1 := by
  -- The first one found is the first in the order, as the entries are sorted.
  obtain ⟨holds, before, after, parts, none_⟩ := List.find?_eq_some_iff_append.mp found
  have sorted := pairwise_orderedMembers members
  rw [parts, List.pairwise_append, List.pairwise_cons] at sorted
  refine ⟨mem_orderedMembers.mp (List.mem_of_find?_eq_some found), beq_iff_eq.mp holds,
    fun i other there same => ?_⟩
  have inside := mem_orderedMembers.mpr there
  rw [parts] at inside
  -- An earlier entry does not have the key.
  rcases List.mem_append.mp inside with early | late
  · have := none_ _ early
    rw [same, beq_self_eq_true] at this
    cases this
  -- A later entry is not before it.
  rcases List.mem_cons.mp late with own | later
  · exact fun first => first.2 (own ▸ rfl)
  · exact (sorted.2.1.1 _ later).asymm

/-- The first of the entries with a name is the first holder's. -/
theorem holderIn_ordered {key id : Text} :
    holderIn toLowerCase (orderedMembers members) key = some id
    ↔ ∃ j holder, FirstHolder toLowerCase members key j holder ∧ holder.id = id := by
  rw [holderIn, Option.map_eq_some_iff]
  constructor
  · rintro ⟨entry, found, rfl⟩
    exact ⟨_, _, firstHolder_of_find? found, rfl⟩
  · rintro ⟨j, holder, first, rfl⟩
    have some_ : ((orderedMembers members).find? fun entry =>
      nameKey toLowerCase entry.1.name == key).isSome = true :=
      List.find?_isSome.mpr ⟨(holder, j), mem_orderedMembers.mpr first.there,
        beq_iff_eq.mpr first.holds⟩
    obtain ⟨entry, found⟩ := Option.isSome_iff_exists.mp some_
    exact ⟨entry, found, by rw [((firstHolder_of_find? found).unique first).2]⟩

/-- A member is late when another holds its name before it. -/
private theorem isLate_ordered {entry : NamedMember τ × Nat} :
    isLate toLowerCase (orderedMembers members) entry = true
      ↔ ∃ id, Late toLowerCase members entry.1 id := by
  rw [isLate, Bool.and_eq_true, bne_iff_ne, Option.any_eq_true]
  constructor
  · rintro ⟨some_, id, found, differs⟩
    exact ⟨id, some_, by simpa using differs, holderIn_ordered.mp found⟩
  · rintro ⟨id, some_, differs, first⟩
    exact ⟨some_, id, holderIn_ordered.mpr first, by simpa using differs⟩

/-- An id is mapped to who held the name first that its last late member has. -/
theorem nameCollisions_eq_some {id holder : Text} :
    (nameCollisions toLowerCase members).get id = some holder
    ↔ ∃ i m, members[i]? = some m ∧ m.id = id ∧ Late toLowerCase members m holder
      ∧ ∀ j other, members[j]? = some other → other.id = id → Before (m, i) (other, j) →
      ∀ id', ¬ Late toLowerCase members other id' := by
  have sorted := pairwise_orderedMembers members
  -- The search from the back finds the last late entry of the identifier.
  rw [get_nameCollisions, collisionOf, Option.bind_eq_some_iff]
  constructor
  · rintro ⟨⟨m, i⟩, found, isHolder⟩
    obtain ⟨both, before, after, parts, none_⟩ := List.find?_eq_some_iff_append.mp found
    rw [Bool.and_eq_true, beq_iff_eq, isLate_ordered] at both
    obtain ⟨own, id', some_, differs, first⟩ := both
    have there := mem_orderedMembers.mp (List.mem_reverse.mp (List.mem_of_find?_eq_some found))
    obtain rfl : id' = holder := Option.some.inj ((holderIn_ordered.mpr first).symm.trans isHolder)
    -- Any later entry of it would have been found first.
    refine ⟨i, m, there, own, ⟨some_, differs, first⟩, fun j other there' own' later id'' late =>
      ?_⟩
    rw [← List.pairwise_reverse, parts, List.pairwise_append, List.pairwise_cons] at sorted
    have inside := List.mem_reverse.mpr (mem_orderedMembers.mpr there')
    rw [parts] at inside
    rcases List.mem_append.mp inside with front | back
    · have := none_ _ front
      rw [beq_iff_eq.mpr own', isLate_ordered.mpr ⟨id'', late⟩] at this
      cases this
    rcases List.mem_cons.mp back with same | behind
    · exact later.2 (congrArg Prod.snd same).symm
    · exact (sorted.2.1.1 _ behind).asymm later
  -- The other way round, this entry is the one that the search meets.
  · rintro ⟨i, m, there, own, late, last⟩
    refine ⟨(m, i), List.find?_eq_some_iff_append.mpr ⟨?_, ?_⟩, holderIn_ordered.mpr late.2.2⟩
    · rw [Bool.and_eq_true, beq_iff_eq, isLate_ordered]
      exact ⟨own, holder, late⟩
    · obtain ⟨before, after, parts⟩ :=
        List.append_of_mem (List.mem_reverse.mpr (mem_orderedMembers.mpr there))
      rw [← List.pairwise_reverse, parts, List.pairwise_append] at sorted
      refine ⟨before, after, parts, fun entry front => ?_⟩
      have there' :=
        mem_orderedMembers.mp (List.mem_reverse.mp (parts ▸ List.mem_append_left _ front))
      have later : Before (m, i) entry := sorted.2.2 entry front (m, i) List.mem_cons_self
      rw [Bool.not_eq_true', Bool.and_eq_false_iff, beq_eq_false_iff_ne, ← Bool.not_eq_true,
        isLate_ordered, not_exists]
      by_cases same : entry.1.id = id
      · exact .inr (last entry.2 entry.1 there' same later)
      · exact .inl same

/-- With distinct ids, a member is mapped exactly when someone else held its name before, and always
to the first of them. -/
theorem nameCollisions_distinct (distinct : (members.map (·.id)).Nodup) {i : Nat}
    {m : NamedMember τ} (there : members[i]? = some m) (holder : Text) :
    (nameCollisions toLowerCase members).get m.id = some holder
      ↔ nameKey toLowerCase m.name ≠ [] ∧ ∃ j first, members[j]? = some first
        ∧ Before (first, j) (m, i)
        ∧ nameKey toLowerCase first.name = nameKey toLowerCase m.name ∧ first.id ≠ m.id
        ∧ first.id = holder
        ∧ ∀ k other, members[k]? = some other → Before (other, k) (m, i) →
          nameKey toLowerCase other.name = nameKey toLowerCase m.name → other.id ≠ m.id →
          ¬ Before (other, k) (first, j) := by
  -- Identifiers are distinct, so there is one entry of each.
  have place : ∀ {j other}, members[j]? = some other → other.id = m.id → i = j := by
    intro j other there' same
    have ids : (members.map (·.id))[i]? = (members.map (·.id))[j]? := by
      rw [List.getElem?_map, List.getElem?_map, there, there', Option.map_some,
        Option.map_some, same]
    refine (List.getElem?_inj ?_ distinct).mp ids
    rw [List.length_map]
    exact (List.getElem?_eq_some_iff.mp there).1
  rw [nameCollisions_eq_some]
  constructor
  -- The entry found is this one, and the holder of its key comes before it.
  · rintro ⟨i', m', there', own, ⟨some_, differs, j, first, isFirst, rfl⟩, -⟩
    obtain rfl := place there' own
    obtain rfl := Option.some.inj (there.symm.trans there')
    have apart : j ≠ i := by
      rintro rfl
      exact differs (congrArg NamedMember.id (Option.some.inj (isFirst.there.symm.trans there)))
    have before := (before_or (first, j) (m, i) apart).resolve_right (isFirst.first i m there rfl)
    exact ⟨some_, j, first, isFirst.there, before, isFirst.holds, differs, rfl,
      fun k other there'' _ same _ => isFirst.first k other there'' same⟩
  -- The first holder before it is the first of all, since no later one comes before.
  · rintro ⟨some_, j, first, there', before, same, differs, rfl, least⟩
    refine ⟨i, m, there, rfl,
      ⟨some_, differs, j, first, ⟨there', same, fun k other there'' same' => ?_⟩, rfl⟩,
      fun k other there'' own later => absurd (place there'' own) later.2⟩
    by_cases own : other.id = m.id
    · obtain rfl := place there'' own
      obtain rfl := Option.some.inj (there.symm.trans there'')
      exact before.asymm
    -- An earlier holder would be before this entry as well.
    · intro earlier
      have first' : Before (other, k) (m, i) := by
        refine (before_or (other, k) (m, i) fun same'' => ?_).resolve_right fun late => ?_
        · have same_ : k = i := same''
          subst same_
          exact own (congrArg NamedMember.id (Option.some.inj (there''.symm.trans there)))
        · exact before.asymm ⟨isOrdered_trans _ _ _ late.1 earlier.1, before.2.symm⟩
      exact least k other there'' first' same' own earlier

end Khala
