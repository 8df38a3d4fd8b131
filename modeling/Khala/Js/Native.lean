import Khala.Js.JsonReading
import Khala.Js.Members

/-! Values as the runtime holds them, which are parsed from the texts that are printed of them. -/

namespace Js

variable (printed : Number → Prop)

mutual

/-- The keys of every object are distinct and in the order in which they are enumerated, and every
number is one that is printed. -/
def Json.Native : Json → Prop
  | .number value => printed value
  | .array items => NativeItems items
  | .object members => (members.map (·.1)).Nodup ∧ enumerationOrder members = members
    ∧ NativeMembers members
  | _ => True

def NativeItems : List Json → Prop
  | [] => True
  | item :: rest => item.Native ∧ NativeItems rest

def NativeMembers : List (Text × Json) → Prop
  | [] => True
  | (_, value) :: rest => value.Native ∧ NativeMembers rest

end

variable {printed}

/-- Members are printed as JSON prints them when each value is. -/
theorem nativeMembers_iff (members : List (Text × Json)) :
    NativeMembers printed members ↔ ∀ member ∈ members, member.2.Native printed := by
  induction members with
  | nil => simp [NativeMembers]
  | cons member rest ih => simp [NativeMembers, ih]

/-- Keys that spell no index are enumerated as they were added. -/
theorem enumerationOrder_of_words {members : List (Text × Json)}
    (words : ∀ member ∈ members, arrayIndex member.1 = none) :
    enumerationOrder members = members := by
  -- There are no indexes to be sorted to the front.
  have none_ : members.filter (fun member => (arrayIndex member.1).isSome) = [] := by
    rw [List.filter_eq_nil_iff]
    intro member inside
    simp [words member inside]
  have all : members.filter (fun member => !(arrayIndex member.1).isSome) = members := by
    rw [List.filter_eq_self]
    intro member inside
    simp [words member inside]
  rw [enumerationOrder, none_, all, List.mergeSort_nil, List.nil_append]

/-- The order of array indexes is transitive. -/
private theorem index_le_trans (a b c : Text × Json)
    (first : decide ((arrayIndex a.1).getD 0 ≤ (arrayIndex b.1).getD 0) = true)
    (second : decide ((arrayIndex b.1).getD 0 ≤ (arrayIndex c.1).getD 0) = true) :
    decide ((arrayIndex a.1).getD 0 ≤ (arrayIndex c.1).getD 0) = true := by
  simp only [decide_eq_true_eq] at first second ⊢
  exact Nat.le_trans first second

/-- Of two array indexes one comes first, or they are the same. -/
private theorem index_le_total (a b : Text × Json) :
    (decide ((arrayIndex a.1).getD 0 ≤ (arrayIndex b.1).getD 0)
    || decide ((arrayIndex b.1).getD 0 ≤ (arrayIndex a.1).getD 0)) = true := by
  simp only [Bool.or_eq_true, decide_eq_true_eq]
  exact Nat.le_total _ _

/-- Members that are left out leave the others in their order. -/
theorem enumerationOrder_filter {members : List (Text × Json)}
    (order : enumerationOrder members = members) (keeps : Text × Json → Bool) :
    enumerationOrder (members.filter keeps) = members.filter keeps := by
  -- The indexes are sorted already, and a part of a sorted list is sorted.
  have sorted := List.pairwise_mergeSort index_le_trans index_le_total
    (members.filter fun member => (arrayIndex member.1).isSome)
  have same : (members.filter fun member => (arrayIndex member.1).isSome).mergeSort
      (fun a b => (arrayIndex a.1).getD 0 ≤ (arrayIndex b.1).getD 0) = members.filter fun member =>
        (arrayIndex member.1).isSome := by
    -- The indexes come first, so that they are what stands there before the words.
    have front := congrArg (List.filter fun member => (arrayIndex member.1).isSome) order
    rw [enumerationOrder, List.filter_append] at front
    have all : ((members.filter fun member => (arrayIndex member.1).isSome).mergeSort
        (fun a b => (arrayIndex a.1).getD 0 ≤ (arrayIndex b.1).getD 0)).filter (fun member =>
          (arrayIndex member.1).isSome)
          = (members.filter fun member => (arrayIndex member.1).isSome).mergeSort
            (fun a b => (arrayIndex a.1).getD 0 ≤ (arrayIndex b.1).getD 0) := by
      rw [List.filter_eq_self]
      intro member inside
      exact (List.mem_filter.mp ((List.mergeSort_perm _ _).subset inside)).2
    have none_ : (members.filter fun member => !(arrayIndex member.1).isSome).filter (fun member =>
      (arrayIndex member.1).isSome)
        = [] := by
      rw [List.filter_filter, List.filter_eq_nil_iff]
      intro member _
      cases (arrayIndex member.1).isSome <;> simp
    rwa [all, none_, List.append_nil] at front
  rw [same] at sorted
  -- To leave out members and to pick the indexes can be done in either order.
  have kept : ((members.filter keeps).filter fun member => (arrayIndex member.1).isSome)
      = (members.filter fun member => (arrayIndex member.1).isSome).filter keeps :=
        List.filter_comm _ _ _
  rw [enumerationOrder, kept, List.mergeSort_of_pairwise (sorted.filter keeps), ← kept]
  nth_rewrite 3 [← order]
  rw [enumerationOrder, same, List.filter_append, List.filter_comm keeps, List.filter_comm keeps]

/-- An object without some of its members is one that the runtime may hold as well. -/
theorem native_filter {members : List (Text × Json)} (native : (Json.object members).Native printed)
    (keeps : Text × Json → Bool) : (Json.object (members.filter keeps)).Native printed := by
  obtain ⟨distinct, order, values⟩ := native
  refine ⟨distinct.sublist (List.filter_sublist.map _), enumerationOrder_filter order keeps, ?_⟩
  rw [nativeMembers_iff] at values ⊢
  exact fun member inside => values member (List.mem_filter.mp inside).1

/-- An object whose keys are distinct and spell no index. -/
theorem native_words {members : List (Text × Json)} {keys : List Text}
    (is : members.map (·.1) = keys) (distinct : keys.Nodup)
    (words : ∀ key ∈ keys, arrayIndex key = none)
    (values : ∀ member ∈ members, member.2.Native printed) :
    (Json.object members).Native printed := by
  subst is
  exact ⟨distinct, enumerationOrder_of_words (List.forall_mem_map.mp words),
    (nativeMembers_iff members).mpr values⟩

/-! ## A parser of what is printed -/

/-- A quoted text has two quotes. -/
private theorem length_quote (key : Text) : 2 ≤ (quote key).length := by
  rw [quote, List.length_append, List.length_cons, List.length_singleton]
  omega

mutual

/-- The fuel that reading a value takes is bounded by the length of its text. -/
theorem weight_lt (value : Json) : weight value < 2 * (stringify value).length := by
  -- A value weighs less than its text has quotes, brackets and digits, counted twice.
  match value with
  | .null => decide
  | .bool true => decide
  | .bool false => decide
  | .number value =>
    have some_ : 0 < value.text.length := List.length_pos_iff.mpr value.shape.1
    change 1 < 2 * value.text.length
    omega
  | .string value =>
    have quoted := length_quote value
    change 1 < 2 * (quote value).length
    omega
  | .array items =>
    have inside := weightItems_le items
    rw [stringify, weight, List.length_append, List.length_cons, List.length_singleton]
    omega
  | .object members =>
    have inside := weightMembers_le members
    rw [stringify, weight, List.length_append, List.length_cons, List.length_singleton]
    omega

/-- Items weigh no more than twice what they are written with. -/
theorem weightItems_le (items : List Json) :
    weightItems items ≤ 2 * (stringifyItems items).length := by
  match items with
  | [] => exact Nat.zero_le _
  | item :: rest =>
    have first := weight_lt item
    have others := weightMoreItems_le rest
    rw [weightItems, stringifyItems, List.length_append]
    omega

/-- The items behind the first weigh no more than twice what they are written with. -/
theorem weightMoreItems_le (items : List Json) :
    weightItems items ≤ 2 * (stringifyMoreItems items).length := by
  match items with
  | [] => exact Nat.zero_le _
  | item :: rest =>
    have first := weight_lt item
    have others := weightMoreItems_le rest
    rw [weightItems, stringifyMoreItems, List.length_cons, List.length_append]
    omega

/-- Members weigh no more than twice what they are written with. -/
theorem weightMembers_le (members : List (Text × Json)) :
    weightMembers members ≤ 2 * (stringifyMembers members).length := by
  match members with
  | [] => exact Nat.zero_le _
  | (key, value) :: rest =>
    have first := weight_lt value
    have others := weightMoreMembers_le rest
    rw [weightMembers, stringifyMembers, List.length_append, List.length_cons, List.length_append]
    omega

/-- The members behind the first weigh no more than twice what they are written with. -/
theorem weightMoreMembers_le (members : List (Text × Json)) :
    weightMembers members ≤ 2 * (stringifyMoreMembers members).length := by
  match members with
  | [] => exact Nat.zero_le _
  | (key, value) :: rest =>
    have first := weight_lt value
    have others := weightMoreMembers_le rest
    rw [weightMembers, stringifyMoreMembers, List.length_cons, List.length_append,
      List.length_cons, List.length_append]
    omega

end

/-- Parses a text that was printed of a value: no blanks, and nothing after it. -/
def parsePrinted (text : Text) : Option Json :=
  match readValue (2 * text.length) text with
  | some (value, []) => some value
  | _ => none

/-- What is written is parsed. -/
theorem parsePrinted_stringify (value : Json) : parsePrinted (stringify value) = some value := by
  -- Nothing follows the value, and the text is long enough for the fuel.
  have stops : Stops [] := fun u first => by cases first
  have read := readValue_stringify value stops (Nat.le_of_lt (weight_lt value))
  rw [List.append_nil] at read
  rw [parsePrinted, read]

end Js
