import Khala.Js.JsonReading
import Khala.Js.Members

/-! The two notions of equality the control store has for values: member by member, and by digest.
-/

namespace Khala

open Js

mutual

/-- Structural equality; the order of an object's keys is irrelevant, that of an array is not. -/
def sameJsonValue : Json → Json → Bool
  | .null, .null => true
  | .bool a, .bool b => a == b
  | .number a, .number b => a == b
  | .string a, .string b => a == b
  | .array a, .array b => a.length == b.length && sameItems a b
  | .object a, .object b => a.length == b.length && sameMembers a b
  | _, _ => false

def sameItems : List Json → List Json → Bool
  | [], _ => true
  | _ :: _, [] => false
  | item :: rest, other :: others => sameJsonValue item other && sameItems rest others

/-- Every member on the left has its like on the right. -/
def sameMembers : List (Text × Json) → List (Text × Json) → Bool
  | [], _ => true
  | (key, value) :: rest, right =>
    (match lookup right key with
      | some other => sameJsonValue value other
      | none => false) && sameMembers rest right

end

/-- Assigning to this key sets the prototype of an object and adds no member. -/
def protoKey : Text := lit "__proto__"

/-- The object that assigning the members one after another to an empty object gives. -/
def assignAll (members : List (Text × Json)) : Json :=
  .object (enumerationOrder (members.filter fun member => member.1 != protoKey))

mutual

/-- Sorts the keys of every object. -/
def canonicalize : Json → Json
  | .array items => .array (canonicalizeItems items)
  | .object members => assignAll (sortByKey (canonicalizeMembers members))
  | value => value

def canonicalizeItems : List Json → List Json
  | [] => []
  | item :: rest => canonicalize item :: canonicalizeItems rest

def canonicalizeMembers : List (Text × Json) → List (Text × Json)
  | [] => []
  | (key, value) :: rest => (key, canonicalize value) :: canonicalizeMembers rest

end

/-- `string | null` as JSON. -/
def jsonOption : Option Text → Json
  | none => .null
  | some s => .string s

def digestOf (value : Json) (expiresAt : Option Text) : Text :=
  stringify (.array [canonicalize value, jsonOption expiresAt])

/-! ## Values without `__proto__` -/

mutual

/-- The value without the members that `canonicalize` loses. -/
def dropProto : Json → Json
  | .array items => .array (dropProtoItems items)
  | .object members => .object (dropProtoMembers members)
  | value => value

def dropProtoItems : List Json → List Json
  | [] => []
  | item :: rest => dropProto item :: dropProtoItems rest

def dropProtoMembers : List (Text × Json) → List (Text × Json)
  | [] => []
  | (key, value) :: rest =>
    if key = protoKey then dropProtoMembers rest
      else (key, dropProto value) :: dropProtoMembers rest

end

/-- No object in the value has a member `__proto__`. -/
def ProtoFree (value : Json) : Prop := dropProto value = value

/-- Items are canonicalised one by one. -/
theorem canonicalizeItems_eq (items : List Json) :
    canonicalizeItems items = items.map canonicalize := by
  induction items with
  | nil => rfl
  | cons item rest ih => rw [canonicalizeItems, ih, List.map_cons]

/-- Members are canonicalised one by one. -/
theorem canonicalizeMembers_eq (members : List (Text × Json)) :
    canonicalizeMembers members = members.map fun member => (member.1, canonicalize member.2) := by
  induction members with
  | nil => rfl
  | cons member rest ih => rw [canonicalizeMembers, ih, List.map_cons]

/-- Keys are dropped from the items one by one. -/
theorem dropProtoItems_eq (items : List Json) : dropProtoItems items = items.map dropProto := by
  induction items with
  | nil => rfl
  | cons item rest ih => rw [dropProtoItems, ih, List.map_cons]

/-- Members under the key are dropped, and the others are gone through. -/
theorem dropProtoMembers_eq (members : List (Text × Json)) :
    dropProtoMembers members
      = (members.filter fun member => member.1 != protoKey).map fun member =>
        (member.1, dropProto member.2) := by
  induction members with
  | nil => rfl
  | cons member rest ih =>
    obtain ⟨key, value⟩ := member
    rw [dropProtoMembers, List.filter_cons]
    by_cases proto : key = protoKey
    · simp [proto, ih]
    · simp [proto, ih]

/-- Lists of one length are the same when their items are. -/
theorem sameItems_iff {a b : List Json} (size : a.length = b.length) :
    sameItems a b = true ↔ List.Forall₂ (fun x y => sameJsonValue x y = true) a b := by
  induction a generalizing b with
  | nil =>
    cases b with
    | nil => simp [sameItems]
    | cons _ _ => cases size
  | cons item rest ih =>
    cases b with
    | nil => cases size
    | cons other others =>
      simp only [List.length_cons, Nat.add_right_cancel_iff] at size
      simp [sameItems, ih size]

/-- Members are the same when each is found in the other object. -/
theorem sameMembers_iff {a b : List (Text × Json)} :
    sameMembers a b = true ↔ ∀ member ∈ a, ∃ other, lookup b member.1 = some other
      ∧ sameJsonValue member.2 other = true := by
  induction a with
  | nil => simp [sameMembers]
  | cons member rest ih =>
    obtain ⟨key, value⟩ := member
    simp only [sameMembers, Bool.and_eq_true, ih, List.forall_mem_cons]
    refine and_congr_left fun _ => ?_
    cases found : lookup b key <;> simp

end Khala
