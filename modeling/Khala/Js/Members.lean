import Khala.Js.Json
import Mathlib.Data.List.Forall2
import Mathlib.Data.List.Nodup
import Mathlib.Data.List.Perm.Subperm

/-! The members of objects: how they are looked up, sorted and enumerated. -/

namespace Js

/-- Induction on a value through its items and members. -/
theorem Json.induct {P : Json → Prop} (null : P .null) (bool : ∀ value, P (.bool value))
    (number : ∀ value, P (.number value)) (string : ∀ value, P (.string value))
    (array : ∀ items, (∀ item ∈ items, P item) → P (.array items))
    (object : ∀ members, (∀ member ∈ members, P member.2) → P (.object members)) (value : Json) :
    P value := by
  -- The lists of items and members carry the property of each of their values.
  refine @Json.rec P (fun items => ∀ item ∈ items, P item)
    (fun members => ∀ member ∈ members, P member.2)
    (fun member => P member.2) null bool number string array object (by simp) ?_ (by simp) ?_
    (fun _ _ kept => kept) value
  · intro item rest first others other member
    exact (List.mem_cons.mp member).elim (fun same => same ▸ first) (others other)
  · intro item rest first others other member
    exact (List.mem_cons.mp member).elim (fun same => same ▸ first) (others other)

/-- The value of the member with a key. -/
def lookup (members : List (Text × Json)) (key : Text) : Option Json :=
  (members.find? fun member => member.1 == key).map (·.2)

mutual

/-- No object has two members with one key, as in every object of the runtime. -/
def Json.Distinct : Json → Prop
  | .array items => DistinctItems items
  | .object members => (members.map (·.1)).Nodup ∧ DistinctMembers members
  | _ => True

def DistinctItems : List Json → Prop
  | [] => True
  | item :: rest => item.Distinct ∧ DistinctItems rest

def DistinctMembers : List (Text × Json) → Prop
  | [] => True
  | (_, value) :: rest => value.Distinct ∧ DistinctMembers rest

end

/-- The items have distinct keys when each has. -/
theorem distinctItems_iff (items : List Json) :
    DistinctItems items ↔ ∀ item ∈ items, item.Distinct := by
  induction items with
  | nil => simp [DistinctItems]
  | cons item rest ih => simp [DistinctItems, ih]

/-- The members have distinct keys when each value has. -/
theorem distinctMembers_iff (members : List (Text × Json)) :
    DistinctMembers members ↔ ∀ member ∈ members, member.2.Distinct := by
  induction members with
  | nil => simp [DistinctMembers]
  | cons member rest ih => simp [DistinctMembers, ih]

/-- With distinct keys a member is found under its key and nothing else is. -/
theorem lookup_eq_some {members : List (Text × Json)} (distinct : (members.map (·.1)).Nodup)
    {key : Text} {value : Json} : lookup members key = some value ↔ (key, value) ∈ members := by
  induction members with
  | nil => simp [lookup]
  | cons member rest ih =>
    obtain ⟨first, content⟩ := member
    simp only [List.map_cons, List.nodup_cons] at distinct
    -- The first member has the key, or the rest is looked through.
    by_cases same : first = key
    · subst same
      have other : (first, value) ∉ rest := fun inside => distinct.1 (List.mem_map_of_mem inside)
      simp [lookup, other, eq_comm]
    · have differs : (first == key) = false := by simpa using same
      have tail := ih distinct.2
      simp only [lookup, List.find?_cons, differs] at tail ⊢
      rw [tail]
      simp [Ne.symm same]

/-! ## Order -/

/-- The order of strings by their code units. -/
def textLe : Text → Text → Bool
  | [], _ => true
  | _ :: _, [] => false
  | u :: us, v :: vs => if u = v then textLe us vs else u < v

/-- Of two texts one comes first, or they are the same. -/
theorem textLe_total (s t : Text) : (textLe s t || textLe t s) = true := by
  induction s generalizing t with
  | nil => simp [textLe]
  | cons u us ih =>
    cases t with
    | nil => simp [textLe]
    | cons v vs =>
      by_cases same : u = v
      · simpa [textLe, same] using ih vs
      · simp only [textLe, if_neg same, if_neg (Ne.symm same), Bool.or_eq_true, decide_eq_true_eq]
        exact UInt16.lt_or_lt_of_ne same

/-- Texts that come before each other are the same. -/
theorem textLe_antisymm {s t : Text} (le : textLe s t = true) (ge : textLe t s = true) : s = t := by
  induction s generalizing t with
  | nil =>
    cases t with
    | nil => rfl
    | cons v vs => simp [textLe] at ge
  | cons u us ih =>
    cases t with
    | nil => simp [textLe] at le
    | cons v vs =>
      -- The first units decide, unless they are the same.
      by_cases same : u = v
      · subst same
        simp only [textLe, if_true] at le ge
        rw [ih le ge]
      · simp only [textLe, if_neg same, if_neg (Ne.symm same), decide_eq_true_eq] at le ge
        exact absurd (UInt16.lt_trans le ge) (UInt16.lt_irrefl u)

/-- The order of texts is transitive. -/
theorem textLe_trans {r s t : Text} (first : textLe r s = true) (second : textLe s t = true) :
    textLe r t = true := by
  induction r generalizing s t with
  | nil => simp [textLe]
  | cons u us ih =>
    match s, t with
    | [], _ => simp [textLe] at first
    | _ :: _, [] => simp [textLe] at second
    | v :: vs, w :: ws =>
      -- The first place where two of the texts differ decides between them.
      by_cases one : u = v
      · by_cases two : v = w
        · subst one two
          simp only [textLe, if_true] at first second ⊢
          exact ih first second
        · subst one
          simpa [textLe, two] using second
      · simp only [textLe, if_neg one, decide_eq_true_eq] at first
        by_cases two : v = w
        · subst two
          simpa [textLe, one] using first
        · simp only [textLe, if_neg two, decide_eq_true_eq] at second
          have less := UInt16.lt_trans first second
          have differs : u ≠ w := UInt16.ne_of_lt less
          simpa [textLe, differs] using less

/-- Members sorted by their keys. -/
def sortByKey (members : List (Text × Json)) : List (Text × Json) :=
  members.mergeSort fun a b => textLe a.1 b.1

/-- Sorting keeps the members. -/
theorem sortByKey_perm (members : List (Text × Json)) : (sortByKey members).Perm members :=
  List.mergeSort_perm _ _

/-- Sorted members have their keys in order. -/
theorem sortByKey_sorted (members : List (Text × Json)) :
    (sortByKey members).Pairwise fun a b => textLe a.1 b.1 = true :=
  List.pairwise_mergeSort (fun a b c => @textLe_trans a.1 b.1 c.1)
    (fun a b => textLe_total a.1 b.1) members

/-- Sorting forgets the order that distinct members came in. -/
theorem sortByKey_eq_of_perm {a b : List (Text × Json)} (distinct : (a.map (·.1)).Nodup)
    (perm : a.Perm b) :
    sortByKey a = sortByKey b := by
  refine List.Perm.eq_of_pairwise (fun x y inA inB le ge => ?_) (sortByKey_sorted a)
    (sortByKey_sorted b)
    ((sortByKey_perm a).trans (perm.trans (sortByKey_perm b).symm))
  -- Equal keys belong to one member.
  have left : x ∈ a := (sortByKey_perm a).subset inA
  have right : y ∈ a := perm.symm.subset ((sortByKey_perm b).subset inB)
  exact List.inj_on_of_nodup_map distinct left right (textLe_antisymm le ge)

/-- The array index a key spells, if it spells one. -/
def arrayIndex (key : Text) : Option Nat :=
  let value := readDigits 0 key
  if decimal value = key ∧ value < 2 ^ 32 - 1 then some value else none

/-- The order in which the runtime enumerates members that were added in the given order. -/
def enumerationOrder (members : List (Text × Json)) : List (Text × Json) :=
  (members.filter fun member => (arrayIndex member.1).isSome).mergeSort
      (fun a b => (arrayIndex a.1).getD 0 ≤ (arrayIndex b.1).getD 0)
    ++ members.filter fun member => !(arrayIndex member.1).isSome

/-- Enumerating keeps the members. -/
theorem enumerationOrder_perm (members : List (Text × Json)) :
    (enumerationOrder members).Perm members :=
  ((List.mergeSort_perm _ _).append_right _).trans
    (List.filter_append_perm (fun member : Text × Json => (arrayIndex member.1).isSome) members)

end Js
