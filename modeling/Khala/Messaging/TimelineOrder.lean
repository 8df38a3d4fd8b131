import Khala.Messaging.TimelineEvents

/-! A timeline lists its events in the order of the room, as long as every array can be anchored. -/

namespace Khala.Timeline

open Js

variable {Row : Type}

/-- The event IDs of an array. -/
abbrev idsOf (entries : List (RemoteEntry Row)) : List Text := entries.map (·.eventId)

section

variable {knownIds : List Text} {remote : Map Text (RemoteEntry Row)}

/-- Where the events of an array have been put, when none of them comes twice. -/
structure Placing.Follows (knownIds : List Text) (remote : Map Text (RemoteEntry Row))
    (ids : List Text) (placing : Placing Row) : Prop where
  order : ((ids.filter (· ∈ knownIds)).flatMap fun id => idsOf (placing.bucket id) ++ [id])
    ++ idsOf placing.tail
    = ids.filter fun id => id ∈ knownIds ∨ id ∈ remote.keys
  successor : placing.successor = (ids.filter (· ∈ knownIds)).head?
  placed : ∀ id ∈ placing.placed, id ∈ ids
  bucket : ∀ id, placing.bucket id ≠ [] → id ∈ ids

/-- Placing an entry keeps the order of the page. -/
theorem place_follows (keyed : Keyed remote) {ids : List Text} {placing : Placing Row}
    (follows : placing.Follows knownIds remote ids) (entry : RemoteEntry Row)
    (distinct : (entry.eventId :: ids).Nodup) :
    (place knownIds remote entry placing).Follows knownIds remote (entry.eventId :: ids) := by
  have new : entry.eventId ∉ ids := (List.nodup_cons.mp distinct).1
  unfold place
  split
  -- A known entry: later ones go before it, and nothing does so far.
  · rename_i known
    have empty : placing.bucket entry.eventId = [] := by
      by_contra some_
      exact new (follows.bucket _ some_)
    refine ⟨?_, ?_, fun id inside => List.mem_cons_of_mem _ (follows.placed id inside),
      fun id some_ => List.mem_cons_of_mem _ (follows.bucket id some_)⟩
    · rw [List.filter_cons_of_pos (by simpa using known),
        List.filter_cons_of_pos (by simp [known]), List.flatMap_cons, ← follows.order]
      have same :
        Placing.bucket { placing with successor := some entry.eventId } entry.eventId = [] := empty
      rw [same]
      rfl
    · rw [List.filter_cons_of_pos (by simpa using known)]
      rfl
  -- An unknown entry leaves the known ones as they are.
  · rename_i unknown
    have skip : (entry.eventId :: ids).filter (· ∈ knownIds) = ids.filter (· ∈ knownIds) :=
      List.filter_cons_of_neg (by simpa using unknown)
    split
    -- It has no row, so the order has nothing of it.
    · rename_i absent
      have noKey : entry.eventId ∉ remote.keys := fun inside => by
        rw [Map.mem_keys, absent] at inside
        cases inside
      refine ⟨?_, by rw [skip]; exact follows.successor, fun id inside =>
        List.mem_cons_of_mem _ (follows.placed id inside),
        fun id some_ => List.mem_cons_of_mem _ (follows.bucket id some_)⟩
      rw [skip, List.filter_cons_of_neg (by simp [unknown, noKey])]
      exact follows.order
    -- It has a row, which is placed once.
    · rename_i found there
      have id_ := keyed _ _ there
      have isKey : entry.eventId ∈ remote.keys := Map.mem_keys.mpr (by rw [there]; rfl)
      have more : (entry.eventId :: ids).filter (fun id => id ∈ knownIds ∨ id ∈ remote.keys)
          = entry.eventId :: ids.filter fun id => id ∈ knownIds ∨ id ∈ remote.keys :=
            List.filter_cons_of_pos (by simp [isKey])
      have placed' : ∀ id ∈ entry.eventId :: placing.placed, id ∈ entry.eventId :: ids :=
        List.forall_mem_cons.mpr ⟨List.mem_cons_self, fun id inside =>
          List.mem_cons_of_mem _ (follows.placed id inside)⟩
      rw [if_neg fun placed => new (follows.placed _ placed)]
      have anchor := follows.successor
      split
      · rename_i none_
        -- Nothing known comes after: all that was met is the tail.
        refine ⟨?_, by rw [skip]; exact anchor, placed', fun id some_ =>
          List.mem_cons_of_mem _ (follows.bucket id some_)⟩
        rw [none_] at anchor
        have noKnown := List.head?_eq_none_iff.mp anchor.symm
        have order := follows.order
        rw [noKnown] at order
        rw [skip, more, noKnown, ← order]
        simp [id_]
      -- Something known comes after, and the row goes into its bucket.
      · rename_i successor some_
        rw [some_] at anchor
        obtain ⟨others, knowns⟩ := List.head?_eq_some_iff.mp anchor.symm
        have distinct' : (successor :: others).Nodup :=
          knowns ▸ (List.nodup_cons.mp distinct).2.filter _
        refine ⟨?_, by rw [skip]; exact follows.successor, placed', fun id nonempty => ?_⟩
        · -- The bucket of the successor has one more in front, all others are as before.
          have order := follows.order
          rw [knowns, List.flatMap_cons] at order
          rw [skip, more, knowns, List.flatMap_cons, ← order, Placing.bucket_set, if_pos rfl]
          have others_ : ∀ id ∈ others, Placing.bucket { placing with
              placed := entry.eventId :: placing.placed,
              before := placing.before.set successor (found :: placing.bucket successor) } id
                = placing.bucket id := fun id inside => by
            rw [Placing.bucket_set, if_neg]
            rintro rfl
            exact (List.nodup_cons.mp distinct').1 inside
          rw [List.flatMap_congr fun id inside => by rw [others_ id inside]]
          simp [id_]
        · rw [Placing.bucket_set] at nonempty
          split at nonempty
          · rename_i same
            have inside : successor ∈ ids.filter (· ∈ knownIds) := knowns ▸ List.mem_cons_self
            exact List.mem_cons_of_mem _ (same ▸ (List.mem_filter.mp inside).1)
          · exact List.mem_cons_of_mem _ (follows.bucket id nonempty)

/-- Placing all entries keeps the order of the page. -/
theorem placing_follows (keyed : Keyed remote) {entries : List (RemoteEntry Row)}
    (distinct : (idsOf entries).Nodup) :
    (entries.foldr (place knownIds remote) .start).Follows knownIds remote (idsOf entries) := by
  induction entries with
  | nil => exact ⟨rfl, rfl, fun _ none_ => absurd none_ List.not_mem_nil, fun _ none_ =>
    absurd rfl none_⟩
  | cons entry rest ih =>
    exact place_follows keyed (ih (List.nodup_cons.mp distinct).2) entry distinct

/-! ## The order of the room -/

/-- A sublist of a list without duplicates is what the list has of it. -/
theorem filter_mem_of_sublist {part whole : List Text} (sub : part.Sublist whole)
    (distinct : whole.Nodup) :
    whole.filter (· ∈ part) = part := by
  induction sub with
  | slnil => rfl
  | cons id sub ih =>
    have absent : id ∉ _ := fun inside => (List.nodup_cons.mp distinct).1 (sub.subset inside)
    rw [List.filter_cons_of_neg (by simpa using absent), ih (List.nodup_cons.mp distinct).2]
  | @cons_cons part whole id sub ih =>
    have new := (List.nodup_cons.mp distinct).1
    rw [List.filter_cons_of_pos (by simp), List.filter_congr (q := (· ∈ part)),
      ih (List.nodup_cons.mp distinct).2]
    intro other inside
    have differs : other ≠ id := fun same => new (same ▸ inside)
    simp [differs]

/-- Known events lie around an interval of the room; what is put among those in the interval keeps
to it. -/
theorem sublist_room {room known left ids right tail placed : List Text} {bucket : Text → List Text}
    (distinct : room.Nodup) (inRoom : known.Sublist room) (interval : room = left ++ ids ++ right)
    (order : ((ids.filter (· ∈ known)).flatMap fun id => bucket id ++ [id]) ++ tail = placed)
    (sub : placed.Sublist ids) (bucket_ : ∀ id, bucket id ≠ [] → id ∈ ids)
    (ends : (∀ id ∈ known, id ∉ right) ∨ tail = []) :
    ((known.flatMap fun id => bucket id ++ [id]) ++ tail).Sublist room := by
  subst interval
  obtain ⟨knownLeft, knownRight, rfl, subLeft, subRight⟩ := List.sublist_append_iff.mp inRoom
  obtain ⟨knownBefore, knownIn, rfl, subBefore, subIn⟩ := List.sublist_append_iff.mp subLeft
  obtain ⟨distinctLeft, -, apartRight⟩ := List.nodup_append.mp distinct
  obtain ⟨-, distinctIds, apartLeft⟩ := List.nodup_append.mp distinctLeft
  have outside : ∀ others : List Text, (∀ id ∈ others, id ∉ ids) →
    (others.flatMap fun id => bucket id ++ [id]) = others := by
    intro others apart
    have empty : ∀ id ∈ others, bucket id ++ [id] = [id] := fun id inside => by
      have none_ : bucket id = [] := by
        by_contra some_
        exact apart id inside (bucket_ id some_)
      rw [none_, List.nil_append]
    rw [List.flatMap_congr empty, List.flatMap_singleton']
  have before := outside knownBefore fun id inside inIds =>
    apartLeft id (subBefore.subset inside) id inIds rfl
  have after := outside knownRight fun id inside inIds =>
    apartRight id (List.mem_append_right _ inIds) id (subRight.subset inside) rfl
  -- Of the known events, the interval has those of the middle.
  have within : ids.filter (· ∈ knownBefore ++ knownIn ++ knownRight) = knownIn := by
    rw [← filter_mem_of_sublist subIn distinctIds]
    refine List.filter_congr fun id inside => ?_
    have notBefore : id ∉ knownBefore :=
      fun there => apartLeft id (subBefore.subset there) id inside rfl
    have notAfter : id ∉ knownRight :=
      fun there => apartRight id (List.mem_append_right _ inside) id (subRight.subset there) rfl
    rw [filter_mem_of_sublist subIn distinctIds]
    simp [notBefore, notAfter]
  rw [within] at order
  rw [List.flatMap_append, List.flatMap_append, before, after]
  rcases ends with none_ | rfl
  · have noneRight : knownRight = [] := List.eq_nil_iff_forall_not_mem.mpr fun id inside =>
      none_ id (List.mem_append_right _ inside) (subRight.subset inside)
    rw [noneRight, List.append_nil, List.append_assoc, order]
    exact (subBefore.append sub).trans (List.sublist_append_left _ _)
  · rw [List.append_nil] at order ⊢
    rw [order]
    exact (subBefore.append sub).append subRight

/-- Of an array, something is put at the end only when its last event that is listed is not known.
-/
theorem tail_eq_nil {ids known keys ignored tail front : List Text} (distinct : ids.Nodup)
    (order : front ++ tail = ids.filter fun id => id ∈ known ∨ id ∈ keys)
    (knowns : ∀ id ∈ ids, id ∈ known → id ∈ front) (listed : ∀ id ∈ keys, id ∉ known → id ∉ ignored)
    (ends : ∀ last, (ids.filter (· ∉ ignored)).getLast? = some last → last ∈ known) :
    tail = [] := by
  rcases List.eq_nil_or_concat' tail with none_ | ⟨others, id, rfl⟩
  · exact none_
  · exfalso
    rw [← List.append_assoc] at order
    have inside : id ∈ ids.filter fun id => id ∈ known ∨ id ∈ keys :=
      order ▸ List.mem_append_right _ List.mem_cons_self
    obtain ⟨inIds, isPlaced⟩ := List.mem_filter.mp inside
    have new : id ∉ known := by
      intro isKnown
      have apart := (List.nodup_append.mp (order ▸ distinct.filter _)).2.2
      exact apart id (List.mem_append_left _ (knowns id inIds isKnown)) id List.mem_cons_self rfl
    have isListed := listed id ((of_decide_eq_true isPlaced).resolve_left new) new
    cases last : (ids.filter (· ∉ ignored)).getLast? with
    | none =>
      have empty := List.getLast?_eq_none_iff.mp last
      exact absurd (List.mem_filter.mpr ⟨inIds, decide_eq_true isListed⟩) (empty ▸ List.not_mem_nil)
    | some last' =>
      -- Everything behind that event is ignored, so nothing new can be behind it.
      have isKnown := ends last' last
      obtain ⟨listed', whole⟩ := List.getLast?_eq_some_iff.mp last
      obtain ⟨before, behind, rfl, -, single⟩ := List.filter_eq_append_iff.mp whole
      obtain ⟨skipped, rest, rfl, -, -, ignored_⟩ := List.filter_eq_cons_iff.mp single
      have ends' : id ∈ last' :: rest := by
        have split :
          ((before ++ (skipped ++ last' :: rest)).filter fun id => id ∈ known ∨ id ∈ keys).getLast?
            = (last' :: rest.filter fun id => id ∈ known ∨ id ∈ keys).getLast? := by
          rw [List.filter_append, List.filter_append, List.filter_cons_of_pos (by simp [isKnown]),
            ← List.append_assoc,
            List.getLast?_append_of_ne_nil _ (List.cons_ne_nil _ _)]
        rw [← order, List.getLast?_concat] at split
        rcases List.mem_cons.mp (List.mem_of_getLast? split.symm) with rfl | later
        · exact List.mem_cons_self
        · exact List.mem_cons_of_mem _ (List.mem_filter.mp later).1
      rcases List.mem_cons.mp ends' with rfl | later
      · exact new isKnown
      · have gone := List.filter_eq_nil_iff.mp ignored_ id later
        rw [decide_eq_true_eq] at gone
        exact gone isListed

/-- The entries are ordered by their buckets, and those of the tail come last. -/
theorem idsOf_reordered (keyed : Keyed remote) {new : List Text}
    (keys : remote.keys = knownIds ++ new) (placing : Placing Row) :
    idsOf (reordered knownIds remote placing)
      = (knownIds.flatMap fun id => idsOf (placing.bucket id) ++ [id]) ++ idsOf placing.tail := by
  -- A new entry is none of the known ones.
  have apart := (List.nodup_append.mp (keys ▸ remote.distinct : (knownIds ++ new).Nodup)).2.2
  -- So the known ones are the first part of the map.
  have knowns :
    (remote.entries.filter fun known => known.1 ∈ knownIds).map Prod.fst = knownIds := by
    have fst : (remote.entries.filter fun known => known.1 ∈ knownIds).map Prod.fst
      = remote.keys.filter (· ∈ knownIds) := by
      rw [Map.keys, List.filter_map]
      rfl
    rw [fst, keys, List.filter_append, List.filter_eq_self.mpr fun id inside =>
      decide_eq_true inside,
      List.filter_eq_nil_iff.mpr fun id inside isKnown =>
        apart id (of_decide_eq_true isKnown) id inside rfl, List.append_nil]
  -- Before each known entry stands its bucket, and the tail ends the list.
  have own : ∀ known ∈ remote.entries.filter fun known => known.1 ∈ knownIds,
      idsOf (placing.bucket known.1 ++ [known.2]) = idsOf (placing.bucket known.1) ++ [known.1] :=
        fun known inside => by
    have id_ := keyed known.1 known.2 (Map.get_eq_some.mpr (List.mem_filter.mp inside).1)
    simp [idsOf, id_]
  rw [reordered, idsOf, List.map_append, List.map_flatMap, List.flatMap_congr own, ← knowns,
    List.flatMap_map, knowns]

end

/-- An interval of the room after which nothing known comes, or whose last event that is not ignored
is known. -/
def Anchored (room known ignored ids : List Text) : Prop :=
  ∃ left right, room = left ++ ids ++ right
    ∧ ((∀ id ∈ known, id ∉ right) ∨ ∀ last, (ids.filter (· ∉ ignored)).getLast? = some last →
      last ∈ known)

/-- What ignored events leave of the timeline. -/
abbrev ChannelProjection.ignoring (state : ChannelProjection Row) (ignoredEventIds : List Text) :
    ChannelProjection Row :=
  ignoredEventIds.foldl .ignore state

/-- Ignoring events leaves the others in their order. -/
theorem keys_ignoring (ignoredEventIds : List Text) (state : ChannelProjection Row) :
    (state.ignoring ignoredEventIds).remote.keys.Sublist state.remote.keys := by
  induction ignoredEventIds generalizing state with
  | nil => exact List.Sublist.refl _
  | cons id rest ih =>
    refine (ih (state.ignore id)).trans ?_
    simp only [ChannelProjection.ignore]
    split
    · exact List.filter_sublist.map Prod.fst
    · exact List.Sublist.refl _

/-- A page whose entries are anchored leaves the room's order. -/
theorem applyRemote_order {room : List Text} (distinct : room.Nodup) {state : ChannelProjection Row}
    (once : Once state) (inRoom : state.remote.keys.Sublist room) {entries : List (RemoteEntry Row)}
    {ignoredEventIds : List Text}
    (anchored :
      Anchored room (state.ignoring ignoredEventIds).remote.keys
      (state.ignoring ignoredEventIds).ignored (idsOf entries)) :
    (state.applyRemote entries ignoredEventIds).remote.keys.Sublist room := by
  -- The page is an interval of the room.
  obtain ⟨left, right, interval, ends⟩ := anchored
  have distinctIds : (idsOf entries).Nodup := by
    rw [interval] at distinct
    exact (List.nodup_append.mp (List.nodup_append.mp distinct).1).2.1
  have known := (keeps_foldl ignore_keeps ignoredEventIds state).2.2 once
  have taken := (keeps_foldl take_keeps entries _).2.2 known
  -- What the page adds are new entries that are not ignored.
  obtain ⟨new, keys, array, -⟩ := keys_takes entries (state.ignoring ignoredEventIds)
  have follows :=
    @placing_follows Row (state.ignoring ignoredEventIds).remote.keys _ taken.keyed _ distinctIds
  have ids := idsOf_reordered taken.keyed keys
    (entries.foldr (place (state.ignoring ignoredEventIds).remote.keys
      (entries.foldl .take (state.ignoring ignoredEventIds)).remote) .start)
  -- The new order is a part of the room's.
  have sub : (idsOf (reordered (state.ignoring ignoredEventIds).remote.keys
    (entries.foldl .take (state.ignoring ignoredEventIds)).remote
      (entries.foldr (place (state.ignoring ignoredEventIds).remote.keys
        (entries.foldl .take (state.ignoring ignoredEventIds)).remote) .start))).Sublist room := by
    rw [ids]
    refine sublist_room distinct ((keys_ignoring ignoredEventIds state).trans inRoom) interval
      follows.order List.filter_sublist
      (fun id nonempty => follows.bucket id fun none_ => nonempty (by rw [none_]; rfl)) ?_
    refine ends.imp_right fun ends => ?_
    -- The tail is empty where the page does not reach the end.
    refine tail_eq_nil distinctIds follows.order (fun id inside isKnown => ?_)
      (fun id inside isNew => ?_) ends
    · exact List.mem_flatMap.mpr ⟨id, List.mem_filter.mpr ⟨inside, decide_eq_true isKnown⟩,
        List.mem_append_right _ List.mem_cons_self⟩
    · rw [keys] at inside
      exact (array id ((List.mem_append.mp inside).resolve_left isNew)).2
  -- The identifiers are all different, so the map has the order of the list.
  rw [ChannelProjection.applyRemote, keys_byEventId (sub.nodup distinct)]
  exact sub

end Khala.Timeline
