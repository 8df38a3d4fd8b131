import Khala.Control.Digest

/-! When two values have one digest: exactly when they are equal member by member up to `__proto__`.
-/

namespace Khala

open Js

/-! ## What dropping `__proto__` leaves -/

/-- Dropping leaves no more members. -/
private theorem length_dropProtoMembers (members : List (Text × Json)) :
    (dropProtoMembers members).length ≤ members.length := by
  rw [dropProtoMembers_eq, List.length_map]
  exact List.length_filter_le _ _

/-- The items of an array without the key are without it. -/
theorem protoFree_array {items : List Json} (free : ProtoFree (.array items)) :
    ∀ item ∈ items, ProtoFree item := by
  simp only [ProtoFree, dropProto, Json.array.injEq] at free
  rw [dropProtoItems_eq] at free
  induction items with
  | nil => simp
  | cons item rest ih =>
    simp only [List.map_cons, List.cons.injEq] at free
    exact List.forall_mem_cons.mpr ⟨free.1, ih free.2⟩

/-- The members of an object without the key are without it. -/
theorem protoFree_object {members : List (Text × Json)} (free : ProtoFree (.object members)) :
    ∀ member ∈ members, member.1 ≠ protoKey ∧ ProtoFree member.2 := by
  simp only [ProtoFree, dropProto, Json.object.injEq] at free
  -- The induction is on the members.
  induction members with
  | nil => simp
  | cons member rest ih =>
    obtain ⟨key, value⟩ := member
    rw [dropProtoMembers] at free
    split at free
    · -- A dropped member leaves the list too short.
      have short := length_dropProtoMembers rest
      rw [free, List.length_cons] at short
      omega
    -- A member that stays is not the one that is dropped.
    · rename_i other
      simp only [List.cons.injEq, Prod.mk.injEq, true_and] at free
      intro member inside
      rcases List.mem_cons.mp inside with rfl | tail
      · exact ⟨other, free.1⟩
      · exact ih free.2 member tail

/-- Dropping is done once and for all. -/
theorem protoFree_dropProto (value : Json) : ProtoFree (dropProto value) := by
  -- The induction is on the value: what is dropped once is not there a second time.
  induction value using Json.induct with
  | null => rfl
  | bool value => rfl
  | number value => rfl
  | string value => rfl
  | array items ih =>
    simp only [ProtoFree, dropProto, dropProtoItems_eq, List.map_map, Json.array.injEq,
      List.map_inj_left]
    exact ih
  | object members ih =>
    simp only [ProtoFree, dropProto, dropProtoMembers_eq, Json.object.injEq]
    -- The members that stay are those with other keys.
    have stays : ((members.filter fun member => member.1 != protoKey).map fun member =>
      (member.1, dropProto member.2)).filter
        (fun member => member.1 != protoKey)
        = (members.filter fun member => member.1 != protoKey).map fun member =>
          (member.1, dropProto member.2) := by
      rw [List.filter_eq_self]
      intro member inside
      obtain ⟨old, kept, rfl⟩ := List.mem_map.mp inside
      exact (List.mem_filter.mp kept).2
    rw [stays, List.map_map, List.map_inj_left]
    intro member kept
    exact Prod.ext rfl (ih member (List.mem_filter.mp kept).1)

/-- Dropping leaves the keys distinct. -/
theorem distinct_dropProto {value : Json} (distinct : value.Distinct) :
    (dropProto value).Distinct := by
  -- Dropping members leaves keys that were distinct so.
  induction value using Json.induct with
  | null => exact distinct
  | bool value => exact distinct
  | number value => exact distinct
  | string value => exact distinct
  | array items ih =>
    simp only [dropProto, dropProtoItems_eq, Json.Distinct, distinctItems_iff, List.forall_mem_map]
      at distinct ⊢
    exact fun item member => ih item member (distinct item member)
  | object members ih =>
    simp only [dropProto, dropProtoMembers_eq, Json.Distinct, distinctMembers_iff,
      List.forall_mem_map, List.map_map]
      at distinct ⊢
    refine ⟨distinct.1.sublist ((List.filter_sublist).map _), fun member kept => ?_⟩
    have inside := (List.mem_filter.mp kept).1
    exact ih member inside (distinct.2 member inside)

/-! ## Canonical forms -/

/-- Members without `__proto__`, sorted and put into an object, keep exactly their identity as a
set. -/
private theorem assignAll_eq_iff {a b : List (Text × Json)} (distinct : (a.map (·.1)).Nodup)
    (freeA : ∀ member ∈ a, member.1 ≠ protoKey) (freeB : ∀ member ∈ b, member.1 ≠ protoKey) :
    assignAll (sortByKey a) = assignAll (sortByKey b) ↔ a.Perm b := by
  -- Where no member is dropped, sorting keeps them all.
  have whole : ∀ {members : List (Text × Json)}, (∀ member ∈ members, member.1 ≠ protoKey) →
      (sortByKey members).filter (fun member => member.1 != protoKey) = sortByKey members := by
    intro members free
    rw [List.filter_eq_self]
    intro member inside
    simpa using free member ((sortByKey_perm members).subset inside)
  simp only [assignAll, whole freeA, whole freeB, Json.object.injEq]
  constructor
  -- Both enumerations are permutations of their members.
  · intro same
    have left := (enumerationOrder_perm (sortByKey a)).trans (sortByKey_perm a)
    have right := (enumerationOrder_perm (sortByKey b)).trans (sortByKey_perm b)
    exact left.symm.trans (same ▸ right)
  · intro perm
    rw [sortByKey_eq_of_perm distinct perm]

/-- Dropping `__proto__` before sorting comes to the same as dropping it on assignment. -/
private theorem assignAll_filter {members : List (Text × Json)}
    (distinct : (members.map (·.1)).Nodup) :
    assignAll (sortByKey (members.filter fun member => member.1 != protoKey))
      = assignAll (sortByKey members) := by
  have same : (sortByKey (members.filter fun member => member.1 != protoKey)).filter (fun member =>
    member.1 != protoKey)
      = (sortByKey members).filter fun member => member.1 != protoKey := by
    refine List.Perm.eq_of_pairwise (fun x y inA inB le ge => ?_) ((sortByKey_sorted _).filter _)
      ((sortByKey_sorted _).filter _) ?_
    · have left := (List.mem_filter.mp ((sortByKey_perm _).subset (List.mem_filter.mp inA).1)).1
      have right := (sortByKey_perm members).subset (List.mem_filter.mp inB).1
      exact List.inj_on_of_nodup_map distinct left right (textLe_antisymm le ge)
    · refine ((sortByKey_perm _).filter _).trans (((sortByKey_perm members).filter _).trans ?_).symm
      rw [List.filter_filter]
      simp
  rw [assignAll, assignAll, same]

/-- Two objects have the same members up to a relabelling exactly when each finds its like in the
other. -/
private theorem perm_map_iff {f : Json → Json} {a b : List (Text × Json)}
    (distinctA : (a.map (·.1)).Nodup) (distinctB : (b.map (·.1)).Nodup) :
    (a.map fun member => (member.1, f member.2)).Perm (b.map fun member => (member.1, f member.2))
      ↔ a.length = b.length ∧ ∀ member ∈ a, ∃ other, lookup b member.1 = some other
        ∧ f member.2 = f other := by
  constructor
  -- A member and its image are found under the same key.
  · intro perm
    refine ⟨by simpa using perm.length_eq, fun member inside => ?_⟩
    have image := perm.subset (List.mem_map_of_mem inside)
    obtain ⟨⟨key, other⟩, kept, same⟩ := List.mem_map.mp image
    simp only [Prod.mk.injEq] at same
    exact ⟨other, (lookup_eq_some distinctB).mpr (same.1 ▸ kept), same.2.symm⟩
  -- With as many members on both sides, it is enough that each image is found.
  · rintro ⟨size, each⟩
    have keys : (a.map fun member => (member.1, f member.2)).Nodup := by
      refine List.Nodup.of_map (·.1) ?_
      rwa [List.map_map]
    refine (List.subperm_of_subset keys fun image inside => ?_).perm_of_length_le (by simp [size])
    obtain ⟨member, kept, rfl⟩ := List.mem_map.mp inside
    obtain ⟨other, found, same⟩ := each member kept
    exact List.mem_map.mpr ⟨(member.1, other), (lookup_eq_some distinctB).mp found, by rw [same]⟩

/-- A relation of two lists may use where the items stand. -/
private theorem forall₂_imp_of_mem {α β : Type} {R S : α → β → Prop} {a : List α} {b : List β}
    (related : List.Forall₂ R a b) (imp : ∀ x ∈ a, ∀ y ∈ b, R x y → S x y) :
    List.Forall₂ S a b := by
  induction related with
  | nil => exact .nil
  | cons first _ ih =>
    refine .cons (imp _ (by simp) _ (by simp) first) (ih fun x inX y inY => ?_)
    exact imp x (List.mem_cons_of_mem _ inX) y (List.mem_cons_of_mem _ inY)

/-- Without `__proto__`, two values have one canonical form exactly when they are structurally
equal. -/
theorem canonicalize_eq_iff {a b : Json} (distinctA : a.Distinct) (distinctB : b.Distinct)
    (freeA : ProtoFree a) (freeB : ProtoFree b) :
    canonicalize a = canonicalize b ↔ sameJsonValue a b = true := by
  -- The induction is on the first value, by the kinds of both.
  induction a using Json.induct generalizing b with
  | null => cases b <;> simp [canonicalize, sameJsonValue, assignAll]
  | bool value => cases b <;> simp [canonicalize, sameJsonValue, assignAll]
  | number value => cases b <;> simp [canonicalize, sameJsonValue, assignAll]
  | string value => cases b <;> simp [canonicalize, sameJsonValue, assignAll]
  | array items ih =>
    cases b with
    | array others =>
      simp only [Json.Distinct, distinctItems_iff] at distinctA distinctB
      have left := protoFree_array freeA
      have right := protoFree_array freeB
      simp only [canonicalize, canonicalizeItems_eq, sameJsonValue, Json.array.injEq,
        Bool.and_eq_true, beq_iff_eq]
      -- Arrays have the same length and agree place by place.
      have sizes : items.map canonicalize = others.map canonicalize →
        items.length = others.length := by
        intro same
        simpa using congrArg List.length same
      constructor
      · intro same
        refine ⟨sizes same, (sameItems_iff (sizes same)).mpr ?_⟩
        rw [← List.forall₂_eq_eq_eq, List.forall₂_map_left_iff, List.forall₂_map_right_iff] at same
        exact forall₂_imp_of_mem same fun x inX y inY equal =>
          (ih x inX (distinctA x inX) (distinctB y inY) (left x inX) (right y inY)).mp equal
      · rintro ⟨size, same⟩
        rw [← List.forall₂_eq_eq_eq, List.forall₂_map_left_iff, List.forall₂_map_right_iff]
        exact forall₂_imp_of_mem ((sameItems_iff size).mp same) fun x inX y inY equal =>
          (ih x inX (distinctA x inX) (distinctB y inY) (left x inX) (right y inY)).mpr equal
    | _ => simp [canonicalize, sameJsonValue, assignAll]
  | object members ih =>
    cases b with
    | object others =>
      simp only [Json.Distinct, distinctMembers_iff] at distinctA distinctB
      -- Objects have no member that would be dropped.
      have left := protoFree_object freeA
      have right := protoFree_object freeB
      simp only [canonicalize, canonicalizeMembers_eq, sameJsonValue, Bool.and_eq_true, beq_iff_eq]
      rw [assignAll_eq_iff, perm_map_iff distinctA.1 distinctB.1, sameMembers_iff]
      -- Their members agree key by key, in whatever order they stand.
      · refine and_congr_right fun _ => forall₂_congr fun member inside => ?_
        refine exists_congr fun other => and_congr_right fun found => ?_
        have kept := (lookup_eq_some distinctB.1).mp found
        exact ih member inside (distinctA.2 member inside) (distinctB.2 _ kept)
          (left member inside).2 (right _ kept).2
      · simpa [List.map_map, Function.comp_def] using distinctA.1
      · exact List.forall_mem_map.mpr fun member inside => (left member inside).1
      · exact List.forall_mem_map.mpr fun member inside => (right member inside).1
    | _ => simp [canonicalize, sameJsonValue, assignAll]

/-- The canonical form never sees a member `__proto__`. -/
theorem canonicalize_dropProto {value : Json} (distinct : value.Distinct) :
    canonicalize (dropProto value) = canonicalize value := by
  induction value using Json.induct with
  | null => rfl
  | bool value => rfl
  | number value => rfl
  | string value => rfl
  | array items ih =>
    simp only [Json.Distinct, distinctItems_iff] at distinct
    simp only [dropProto, dropProtoItems_eq, canonicalize, canonicalizeItems_eq, List.map_map,
      Json.array.injEq,
      List.map_inj_left]
    exact fun item member => ih item member (distinct item member)
  | object members ih =>
    simp only [Json.Distinct, distinctMembers_iff] at distinct
    simp only [dropProto, dropProtoMembers_eq, canonicalize, canonicalizeMembers_eq, List.map_map]
    -- A dropped member adds nothing to the canonical form.
    have same : ((members.filter fun member => member.1 != protoKey).map
          ((fun member => (member.1, canonicalize member.2)) ∘ fun member =>
            (member.1, dropProto member.2)))
        = (members.map fun member => (member.1, canonicalize member.2)).filter fun member =>
          member.1 != protoKey := by
      rw [List.filter_map, List.map_inj_left.mpr]
      · rfl
      · intro member kept
        have inside := (List.mem_filter.mp kept).1
        exact Prod.ext rfl (ih member inside (distinct.2 member inside))
    rw [same]
    exact assignAll_filter (by simpa [List.map_map, Function.comp_def] using distinct.1)

/-- Two digests are equal exactly when the values are structurally equal without their `__proto__`
members and expire alike. -/
theorem digestOf_eq_iff {a b : Json} (distinctA : a.Distinct) (distinctB : b.Distinct)
    (e f : Option Text) :
    digestOf a e = digestOf b f ↔ sameJsonValue (dropProto a) (dropProto b) = true ∧ e = f := by
  have expiry : jsonOption e = jsonOption f ↔ e = f := by
    cases e <;> cases f <;> simp [jsonOption]
  rw [← canonicalize_eq_iff (distinct_dropProto distinctA) (distinct_dropProto distinctB)
    (protoFree_dropProto a)
    (protoFree_dropProto b), canonicalize_dropProto distinctA, canonicalize_dropProto distinctB,
      ← expiry]
  constructor
  · intro same
    simpa using stringify_injective same
  · rintro ⟨value, expires⟩
    rw [digestOf, digestOf, value, expires]

end Khala
