import Khala.Contracts.TextSize
import Khala.Js.JsonBytes

/-! The UTF-8 size of an object's JSON text is made up of the sizes of its members. -/

namespace Khala.Decode

open Js

/-- Around a text without unpaired surrogates, code points stay apart. -/
theorem codePoints_append {before : Text} (paired : Paired before) (after : Text) :
    codePoints (before ++ after) = codePoints before ++ codePoints after := by
  induction paired with
  | nil => rfl
  | unit single others ih =>
    rw [List.cons_append, codePoints_cons single, codePoints_cons single, ih, List.cons_append]
  | pair high low others ih =>
    simp only [List.cons_append, codePoints,
      if_pos (show _ ∧ _ ∧ _ ∧ _ from ⟨high.1, high.2, low.1, low.2⟩), ih]

/-- The bytes of paired text and of what follows add up. -/
theorem utf8Length_append {before : Text} (paired : Paired before) (after : Text) :
    utf8Length (before ++ after) = utf8Length before + utf8Length after := by
  simp only [utf8Length, codePoints_append paired, List.map_append, List.sum_append]

/-- A text is well-formed when no surrogate in it is unpaired. -/
theorem paired_of_isWellFormed {s : Text} (formed : isWellFormed s = true) : Paired s := by
  induction s using codePoints.induct with
  | case1 => exact .nil
  | case2 u =>
    simp only [isWellFormed, codePoints, List.all_cons, wholePoint, List.all_nil, Bool.and_true,
      Bool.not_eq_true'] at formed
    exact .unit formed .nil
  | case3 u v rest pair ih =>
    simp only [isWellFormed, codePoints, if_pos pair, List.all_cons, Bool.and_eq_true] at formed
    exact .pair ⟨pair.1, pair.2.1⟩ pair.2.2 (ih formed.2)
  | case4 u v rest single ih =>
    simp only [isWellFormed, codePoints, if_neg single, List.all_cons, wholePoint,
      Bool.and_eq_true, Bool.not_eq_true'] at formed
    exact .unit formed.1 (ih formed.2)

/-- Paired text is well formed. -/
theorem isWellFormed_of_paired {s : Text} (paired : Paired s) : isWellFormed s = true := by
  induction paired with
  | nil => rfl
  | unit single others ih =>
    rw [isWellFormed, codePoints_cons single, List.all_cons, wholePoint, single]
    exact ih
  | pair high low others ih =>
    rw [isWellFormed, codePoints, if_pos ⟨high.1, high.2, low.1, low.2⟩, List.all_cons]
    exact ih

/-- Well-formed texts are so together. -/
theorem isWellFormed_append {before after : Text} (first : isWellFormed before = true)
    (second : isWellFormed after = true) :
    isWellFormed (before ++ after) = true :=
  isWellFormed_of_paired ((paired_of_isWellFormed first).append (paired_of_isWellFormed second))

/-- The size of a member with the colon in it. -/
def memberSize (member : Text × Json) : Nat :=
  utf8Length (quote member.1) + 1 + utf8Length (stringify member.2)

/-- A quoted key is paired. -/
private theorem paired_key (key : Text) : Paired (quote key) := paired_stringify (.string key)

/-- A member takes its own bytes. -/
private theorem size_member (key : Text) (value : Json) (rest : Text) :
    utf8Length (quote key ++ 58 :: (stringify value ++ rest)) = memberSize (key,
      value) + utf8Length rest := by
  rw [utf8Length_append (paired_key key), utf8Length_cons_stop (by decide),
    utf8Length_append (paired_stringify value)]
  have colon : pointSize [58] = 1 := by decide
  have own : memberSize (key, value) = utf8Length (quote key) + 1 + utf8Length (stringify value) :=
    rfl
  omega

/-- The members behind the first take their own bytes and a comma each. -/
private theorem size_moreMembers (members : Members) :
    utf8Length (stringifyMoreMembers members) = (members.map fun member =>
      memberSize member + 1).sum := by
  induction members with
  | nil => rfl
  | cons member rest ih =>
    obtain ⟨key, value⟩ := member
    have comma : pointSize [44] = 1 := by decide
    rw [stringifyMoreMembers, utf8Length_cons_stop (by decide), size_member, ih, List.map_cons,
      List.sum_cons]
    omega

/-- Each member adds its own size and a comma or brace. -/
theorem utf8Length_object {members : Members} (some_ : members ≠ []) :
    utf8Length (stringify (.object members)) = 1 + (members.map fun member =>
      memberSize member + 1).sum := by
  cases members with
  | nil => exact absurd rfl some_
  | cons member rest =>
    obtain ⟨key, value⟩ := member
    have open_ : pointSize [123] = 1 := by decide
    have close : pointSize [125] = 1 := by decide
    have last : utf8Length [125] = 1 := by decide
    rw [stringify, stringifyMembers, List.cons_append, utf8Length_cons_stop (by decide),
      List.append_assoc, List.cons_append,
      List.append_assoc, size_member, utf8Length_append (paired_stringifyMoreMembers rest),
        size_moreMembers, last,
      List.map_cons, List.sum_cons]
    omega

/-- The size of an object does not depend on the order of its members. -/
theorem utf8Length_object_perm {members members' : Members} (perm : members.Perm members') :
    utf8Length (stringify (.object members)) = utf8Length (stringify (.object members')) := by
  cases members with
  | nil => rw [List.nil_perm.mp perm]
  | cons member rest =>
    have some_ : members' ≠ [] := fun nothing => by
      rw [nothing] at perm
      cases List.perm_nil.mp perm
    rw [utf8Length_object (List.cons_ne_nil _ _), utf8Length_object some_, (perm.map _).sum_eq]

end Khala.Decode
