import Khala.Messaging.Timeline
import Mathlib.Data.List.Infix
import Mathlib.Data.List.Nodup

/-! Events of a timeline keep what they are: calls put them in order anew, and lose none. -/

namespace Khala.Timeline

open Js

variable {Row : Type}

/-- Every event is kept under its own ID. -/
def Keyed (remote : Map Text (RemoteEntry Row)) : Prop :=
  ∀ id entry, remote.get id = some entry → entry.eventId = id

/-- An entry is put under its own identifier. -/
theorem Keyed.set {remote : Map Text (RemoteEntry Row)} (keyed : Keyed remote)
    (entry : RemoteEntry Row) :
    Keyed (remote.set entry.eventId entry) := by
  intro id found there
  rw [Map.get_set] at there
  split at there
  · rename_i same
    rw [← Option.some.inj there, same]
  · exact keyed _ _ there

/-! ## The map that is built anew -/

/-- A map built from entries of another one has what the other has. -/
theorem get_byEventId {entries : List (RemoteEntry Row)} {remote : Map Text (RemoteEntry Row)}
    (own : ∀ entry ∈ entries, remote.get entry.eventId = some entry) (id : Text) :
    (byEventId entries).get id = if id ∈ entries.map (·.eventId) then remote.get id else none := by
  -- What was set before is overwritten only by the same entry.
  have general : ∀ (built : Map Text (RemoteEntry Row)),
      (entries.foldl (fun remote entry => remote.set entry.eventId entry) built).get id
        = if id ∈ entries.map (·.eventId) then remote.get id else built.get id := by
    induction entries with
    | nil => intro built; simp
    | cons entry rest ih =>
      intro built
      rw [List.foldl_cons, ih fun other inside =>
        own other (List.mem_cons_of_mem _ inside), Map.get_set]
      by_cases later : id ∈ rest.map (·.eventId)
      · simp [later]
      · by_cases here : id = entry.eventId
        · subst here
          simp [later, own entry List.mem_cons_self]
        · simp [later, here]
  exact general .empty

/-- Entries with different IDs are kept in their order. -/
theorem keys_byEventId {entries : List (RemoteEntry Row)}
    (distinct : (entries.map (·.eventId)).Nodup) :
    (byEventId entries).keys = entries.map (·.eventId) := by
  -- The identifiers are new, so each entry is appended to what is built.
  have general : ∀ (built : Map Text (RemoteEntry Row)),
    (built.keys ++ entries.map (·.eventId)).Nodup →
      (entries.foldl (fun remote entry => remote.set entry.eventId entry) built).keys = built.keys
        ++ entries.map (·.eventId) := by
    clear distinct
    induction entries with
    | nil => intro built _; simp
    -- This entry is new to what was built before it.
    | cons entry rest ih =>
      intro built apart
      have new : entry.eventId ∉ built.keys := fun inside =>
        (List.nodup_append.mp apart).2.2 _ inside _ List.mem_cons_self rfl
      have keys : (built.set entry.eventId entry).keys = built.keys ++ [entry.eventId] := by
        rw [Map.keys_set, if_neg new]
      rw [List.foldl_cons, ih _ (by rw [keys]; simpa using apart), keys]
      simp
  exact general .empty (by simpa [Map.keys, Map.empty] using distinct)

/-! ## Places -/

section

variable {knownIds : List Text} {remote : Map Text (RemoteEntry Row)}

/-- Only events of the map are placed, and all that were met and are not known. -/
structure Placing.Sound (knownIds : List Text) (remote : Map Text (RemoteEntry Row))
    (met : List Text) (placing : Placing Row) : Prop where
  bucket : ∀ id, ∀ entry ∈ placing.bucket id, remote.get entry.eventId = some entry
  tail : ∀ entry ∈ placing.tail, remote.get entry.eventId = some entry
  successor : ∀ id, placing.successor = some id → id ∈ knownIds
  placed : ∀ id ∈ placing.placed, id ∈ placing.tail.map (·.eventId) ∨ ∃ known ∈ knownIds,
    id ∈ (placing.bucket known).map (·.eventId)
  met : ∀ id ∈ met, id ∈ knownIds ∨ remote.get id = none ∨ id ∈ placing.placed

/-- At first nothing is placed. -/
theorem Placing.sound_start : (Placing.start : Placing Row).Sound knownIds remote [] where
  bucket := fun _ _ none_ => absurd none_ List.not_mem_nil
  tail := fun _ none_ => absurd none_ List.not_mem_nil
  successor := fun _ none_ => by cases none_
  placed := fun _ none_ => absurd none_ List.not_mem_nil
  met := fun _ none_ => absurd none_ List.not_mem_nil

/-- A bucket that is set is that of its successor. -/
theorem Placing.bucket_set (placing : Placing Row) (successor id : Text)
    (entries : List (RemoteEntry Row)) (placed : List Text) :
    Placing.bucket { placing with placed := placed, before := placing.before.set successor entries } id
      = if id = successor then entries else placing.bucket id := by
  simp only [Placing.bucket, Map.get_set]
  split <;> rfl

/-- Placing an entry keeps the placing sound. -/
theorem place_sound (keyed : Keyed remote) {met : List Text} {placing : Placing Row}
    (sound : placing.Sound knownIds remote met) (entry : RemoteEntry Row) :
    (place knownIds remote entry placing).Sound knownIds remote (entry.eventId :: met) := by
  -- What was met before stays known, absent or placed.
  have earlier : ∀ {placed : List Text}, (∀ id ∈ placing.placed, id ∈ placed) → ∀ id ∈ met,
      id ∈ knownIds ∨ remote.get id = none ∨ id ∈ placed := fun more id inside =>
    (sound.met id inside).imp_right (·.imp_right (more id))
  unfold place
  -- The entry is one that was known, is not listed, was placed before, or is placed now.
  split
  · rename_i known
    exact ⟨sound.bucket, sound.tail, fun id same => Option.some.inj same ▸ known, sound.placed,
      List.forall_mem_cons.mpr ⟨.inl known, sound.met⟩⟩
  · split
    · rename_i absent
      exact ⟨sound.bucket, sound.tail, sound.successor, sound.placed,
        List.forall_mem_cons.mpr ⟨.inr (.inl absent), sound.met⟩⟩
    · rename_i found there
      have id_ := keyed _ _ there
      split
      · rename_i placed
        exact ⟨sound.bucket, sound.tail, sound.successor, sound.placed,
          List.forall_mem_cons.mpr ⟨.inr (.inr placed), sound.met⟩⟩
      · have met' := List.forall_mem_cons.mpr ⟨.inr (.inr List.mem_cons_self), earlier fun _ inside => List.mem_cons_of_mem entry.eventId inside⟩
        -- It goes to the tail, as no known entry has followed, or to the bucket of the one that
        -- has.
        split
        · exact {
            bucket := sound.bucket
            tail := List.forall_mem_cons.mpr ⟨id_ ▸ there, sound.tail⟩
            successor := sound.successor
            placed := by
              refine List.forall_mem_cons.mpr ⟨.inl (by simp [id_]), fun id inside => ?_⟩
              exact (sound.placed id inside).imp_left fun behind => List.mem_cons_of_mem _ behind
            met := met' }
        · rename_i successor anchored
          exact {
            -- Only the successor's bucket has grown.
            bucket := fun id other inside => by
              rw [Placing.bucket_set] at inside
              split at inside
              · rcases List.mem_cons.mp inside with rfl | behind
                · exact id_ ▸ there
                · exact sound.bucket successor other behind
              · exact sound.bucket id other inside
            tail := sound.tail
            successor := sound.successor
            placed := by
              -- The entry is in its bucket, and those placed before are where they were.
              refine List.forall_mem_cons.mpr ⟨.inr ⟨successor, sound.successor successor anchored, ?_⟩, fun id inside => ?_⟩
              · simp [Placing.bucket_set, id_]
              · refine (sound.placed id inside).imp_right ?_
                rintro ⟨known, isKnown, behind⟩
                refine ⟨known, isKnown, ?_⟩
                rw [Placing.bucket_set]
                split
                · rename_i same
                  exact List.mem_cons_of_mem _ (same ▸ behind)
                · exact behind
            met := met' }

/-- Placing all entries keeps the placing sound. -/
theorem placing_sound (keyed : Keyed remote) (entries : List (RemoteEntry Row)) :
    (entries.foldr (place knownIds remote) .start).Sound knownIds remote
    (entries.map (·.eventId)) := by
  induction entries with
  | nil => exact Placing.sound_start
  | cons entry rest ih => exact place_sound keyed ih entry

/-- What is put in order is what was there. -/
theorem get_reordered (keyed : Keyed remote) {entries : List (RemoteEntry Row)}
    (known : ∀ id ∈ knownIds, id ∈ remote.keys)
    (met : ∀ id ∈ remote.keys, id ∈ knownIds ∨ id ∈ entries.map (·.eventId)) (id : Text) :
    (byEventId (reordered knownIds remote (entries.foldr (place knownIds remote) .start))).get id
      = remote.get id := by
  have sound := @placing_sound Row knownIds remote keyed entries
  have own : ∀ entry ∈ reordered knownIds remote (entries.foldr (place knownIds remote) .start),
    remote.get entry.eventId = some entry := by
    intro entry inside
    rcases List.mem_append.mp inside with ordered | tail
    · obtain ⟨⟨key, value⟩, isKnown, here⟩ := List.mem_flatMap.mp ordered
      have there := Map.get_eq_some.mpr (List.mem_filter.mp isKnown).1
      rcases List.mem_append.mp here with bucket | same
      · exact sound.bucket key entry bucket
      · rw [List.mem_singleton.mp same, keyed _ _ there]
        exact there
    · exact sound.tail entry tail
  rw [get_byEventId own]
  split
  · rfl
  · rename_i absent
    by_contra there
    have isKey : id ∈ remote.keys := Map.mem_keys.mpr (by
      cases found : remote.get id with
      | none => exact absurd found.symm there
      | some entry => rfl)
    refine absent ?_
    simp only [reordered, List.map_append, List.mem_append, List.map_flatMap, List.mem_flatMap,
      List.map_append]
    -- A known event comes in its own place, a new one where it was put.
    have inPlace : ∀ key ∈ knownIds, ∃ value, (key, value) ∈ remote.entries.filter fun known =>
      known.1 ∈ knownIds := by
      intro key isKnown
      obtain ⟨value, found⟩ := Option.isSome_iff_exists.mp (Map.mem_keys.mp (known key isKnown))
      exact ⟨value, List.mem_filter.mpr ⟨Map.get_eq_some.mp found, decide_eq_true isKnown⟩⟩
    have ofKnown : id ∈ knownIds → ∃ known ∈ remote.entries.filter fun known => known.1 ∈ knownIds,
        id ∈ ((entries.foldr (place knownIds remote) .start).bucket known.1).map (·.eventId)
          ∨ id ∈ [known.2].map (·.eventId) := by
      intro isKnown
      obtain ⟨value, inside⟩ := inPlace id isKnown
      have own_ := keyed _ _ (Map.get_eq_some.mpr (List.mem_filter.mp inside).1)
      exact ⟨(id, value), inside, .inr (by simp [own_])⟩
    rcases met id isKey with isKnown | inArray
    · exact .inl (ofKnown isKnown)
    · rcases sound.met id inArray with isKnown | none_ | placed
      · exact .inl (ofKnown isKnown)
      · exact absurd none_.symm there
      · rcases sound.placed id placed with tail | ⟨key, isKnown, bucket⟩
        · exact .inr tail
        · obtain ⟨value, inside⟩ := inPlace key isKnown
          exact .inl ⟨(key, value), inside, .inl bucket⟩

end

/-! ## What calls keep -/

/-- A transaction is echoed when a message of it is there. -/
theorem echoed_iff {state : ChannelProjection Row} {clientTxnId : Text} :
    state.echoed clientTxnId = true ↔ ∃ id entry, state.remote.get id = some entry
      ∧ entry.kind = .message (some clientTxnId) := by
  simp only [ChannelProjection.echoed, List.any_eq_true, decide_eq_true_eq, Prod.exists,
    Map.get_eq_some]

/-- Every event is kept under its own ID, and no send both as a local row and as a message. -/
structure Once (state : ChannelProjection Row) : Prop where
  keyed : Keyed state.remote
  apart : ∀ clientTxnId ∈ state.locals.keys, state.echoed clientTxnId = false

/-- Decrypted events stay as they are. -/
def Decrypted (before after : ChannelProjection Row) : Prop :=
  ∀ id entry, before.remote.get id = some entry → entry.kind ≠ .unavailable →
    after.remote.get id = some entry

/-- Ignored events that are not listed stay so. -/
def Ignored (before after : ChannelProjection Row) : Prop :=
  ∀ id ∈ before.ignored, id ∈ after.ignored
    ∧ (before.remote.get id = none → after.remote.get id = none)

/-- Nothing that was decrypted is lost when nothing changes. -/
theorem Decrypted.refl (state : ChannelProjection Row) : Decrypted state state :=
  fun _ _ found _ => found

/-- Nothing that was ignored is shown when nothing changes. -/
theorem Ignored.refl (state : ChannelProjection Row) : Ignored state state :=
  fun _ inside => ⟨inside, id⟩

/-- What is not lost in two steps is not lost. -/
theorem Decrypted.trans {one two three : ChannelProjection Row} (first : Decrypted one two)
    (second : Decrypted two three) :
    Decrypted one three := fun id entry found kind =>
      second id entry (first id entry found kind) kind

/-- What is not shown in two steps is not shown. -/
theorem Ignored.trans {one two three : ChannelProjection Row} (first : Ignored one two)
    (second : Ignored two three) :
    Ignored one three := fun id inside =>
  ⟨(second id (first id inside).1).1, fun none_ =>
    (second id (first id inside).1).2 ((first id inside).2 none_)⟩

/-- With fewer entries each is still there once. -/
theorem Once.of_fewer {state : ChannelProjection Row} (once : Once state)
    {remote : Map Text (RemoteEntry Row)} {locals : Map Text Row}
    (found : ∀ id entry, remote.get id = some entry → state.remote.get id = some entry)
    (kept : ∀ key ∈ locals.keys, key ∈ state.locals.keys) {ignored : List Text} {revision : Nat} :
    Once (⟨remote, ignored, locals, revision⟩ : ChannelProjection Row) where
  keyed := fun id entry there => once.keyed id entry (found id entry there)
  apart := by
    intro clientTxnId inside
    rw [← Bool.not_eq_true, echoed_iff]
    rintro ⟨id, entry, there, kind⟩
    have echoed := echoed_iff.mpr ⟨id, entry, found id entry there, kind⟩
    rw [once.apart clientTxnId (kept clientTxnId inside)] at echoed
    cases echoed

/-- The keys that are left are the others. -/
theorem mem_keys_delete {ν : Type} {m : Map Text ν} {key other : Text} :
    other ∈ (m.delete key).keys ↔ other ∈ m.keys ∧ other ≠ key := by
  rw [Map.mem_keys, Map.mem_keys, Map.get_delete]
  split <;> simp_all

/-- Ignoring an event loses nothing that was decrypted and shows nothing that was ignored. -/
theorem ignore_keeps (state : ChannelProjection Row) (eventId : Text) :
    Decrypted state (state.ignore eventId) ∧ Ignored state (state.ignore eventId)
      ∧ (Once state → Once (state.ignore eventId)) := by
  -- To ignore an entry leaves no more than there was.
  have fewer : ∀ id entry, (state.ignore eventId).remote.get id = some entry →
    state.remote.get id = some entry := by
    intro id entry found
    simp only [ChannelProjection.ignore] at found
    split at found
    · rw [Map.get_delete] at found
      split at found
      · cases found
      · exact found
    · exact found
  refine ⟨fun id entry found kind => ?_, fun id inside => ⟨?_, fun none_ => ?_⟩, fun once =>
    once.of_fewer fewer fun _ => id⟩
  · -- Only a placeholder is deleted.
    simp only [ChannelProjection.ignore]
    split
    · rename_i placeholder
      rw [Map.get_delete, if_neg, found]
      rintro rfl
      rw [found, Option.any_some, decide_eq_true_eq] at placeholder
      exact kind placeholder
    · exact found
  -- What was ignored stays so, and what is not there does not come back.
  · simp only [ChannelProjection.ignore]
    split
    · exact inside
    · exact List.mem_append_left _ inside
  · cases found : (state.ignore eventId).remote.get id with
    | none => rfl
    | some entry => rw [fewer id entry found] at none_; cases none_

/-- Taking an entry loses nothing that was decrypted and shows nothing that was ignored. -/
theorem take_keeps (state : ChannelProjection Row) (entry : RemoteEntry Row) :
    Decrypted state (state.take entry) ∧ Ignored state (state.take entry)
      ∧ (Once state → Once (state.take entry)) := by
  unfold ChannelProjection.take
  -- An ignored entry is not taken, and one that supersedes nothing is not either.
  split
  · exact ⟨.refl _, .refl _, id⟩
  · rename_i listed
    split
    · rename_i superseded
      refine ⟨fun id old found kind => ?_, fun id inside => ⟨inside, fun none_ => ?_⟩, fun once =>
        ⟨Keyed.set once.keyed entry, ?_⟩⟩
      -- A decrypted entry is not the one that is replaced.
      · rw [Map.get_set, if_neg, found]
        rintro rfl
        simp only [supersedes, found, decide_eq_true_eq] at superseded
        exact kind superseded.1
      · rw [Map.get_set, if_neg, none_]
        rintro rfl
        exact listed inside
      · intro clientTxnId inside
        rw [← Bool.not_eq_true, echoed_iff]
        rintro ⟨id, other, there, kind⟩
        simp only [Map.get_set] at there
        split at there
        · -- The new message took its send away.
          obtain rfl := Option.some.inj there
          simp only [kind] at inside
          exact (mem_keys_delete.mp inside).2 rfl
        -- Another entry echoes the send as it did before, and then the send was not there.
        · have kept : clientTxnId ∈ state.locals.keys := by
            split at inside
            · exact (mem_keys_delete.mp inside).1
            · exact inside
          have echoed := echoed_iff.mpr ⟨id, other, there, kind⟩
          rw [once.apart clientTxnId kept] at echoed
          cases echoed
    · exact ⟨.refl _, .refl _, id⟩

/-- Taking an entry ignores nothing. -/
theorem ignored_take (state : ChannelProjection Row) (entry : RemoteEntry Row) :
    (state.take entry).ignored = state.ignored := by
  unfold ChannelProjection.take
  split
  · rfl
  · split <;> rfl

/-- An event that is not ignored is known afterwards, and it comes last when it is new. -/
theorem keys_take (state : ChannelProjection Row) (entry : RemoteEntry Row) :
    (state.take entry).remote.keys
      = if entry.eventId ∈ state.ignored ∨ entry.eventId ∈ state.remote.keys then state.remote.keys
        else state.remote.keys ++ [entry.eventId] := by
  unfold ChannelProjection.take
  -- The entry is ignored, known already, or new.
  split
  · rename_i ignored
    rw [if_pos (.inl ignored)]
  · rename_i listed
    by_cases known : entry.eventId ∈ state.remote.keys
    · have known_ : entry.eventId ∈ state.ignored ∨ entry.eventId ∈ state.remote.keys := .inr known
      by_cases superseded : supersedes (state.remote.get entry.eventId) entry = true
      · rw [if_pos superseded, if_pos known_, Map.keys_set, if_pos known]
      · rw [if_neg superseded, if_pos known_]
    · rw [if_neg (not_or.mpr ⟨listed, known⟩)]
      -- A new entry supersedes, since there is none to compare with.
      have none_ : state.remote.get entry.eventId = none := by
        cases found : state.remote.get entry.eventId with
        | none => rfl
        | some other => exact absurd (Map.mem_keys.mpr (by rw [found]; rfl)) known
      have new : supersedes (state.remote.get entry.eventId) entry = true := by rw [none_]; rfl
      rw [if_pos new, Map.keys_set, if_neg known]

/-- The events of an array come after the known ones; those that are ignored are left out. -/
theorem keys_takes (entries : List (RemoteEntry Row)) (state : ChannelProjection Row) :
    ∃ new, (entries.foldl .take state).remote.keys = state.remote.keys ++ new
      ∧ (∀ id ∈ new, id ∈ entries.map (·.eventId) ∧ id ∉ state.ignored)
      ∧ ∀ id ∈ entries.map (·.eventId), id ∉ state.ignored → id ∈ state.remote.keys ++ new := by
  induction entries generalizing state with
  | nil => exact ⟨[], by simp, fun _ none_ => absurd none_ List.not_mem_nil, fun _ none_ =>
    absurd none_ List.not_mem_nil⟩
  | cons entry rest ih =>
    -- The statement is about what is left after the first entry was taken.
    obtain ⟨new, keys, array, taken⟩ := ih (state.take entry)
    rw [ignored_take] at array taken
    rw [keys_take] at keys taken
    rw [List.foldl_cons, keys]
    -- The first entry adds nothing, or it is itself the first of the new ones.
    split at taken <;> rename_i here
    · rw [if_pos here]
      refine ⟨new, rfl, fun id inside =>
        ⟨List.mem_cons_of_mem _ (array id inside).1, (array id inside).2⟩, ?_⟩
      refine List.forall_mem_cons.mpr ⟨fun listed => ?_, taken⟩
      exact List.mem_append_left _ (here.resolve_left listed)
    · rw [if_neg here]
      refine ⟨entry.eventId :: new, by simp,
        List.forall_mem_cons.mpr ⟨⟨List.mem_cons_self, fun ignored => here (.inl ignored)⟩, ?_⟩, ?_⟩
      · exact fun id inside => ⟨List.mem_cons_of_mem _ (array id inside).1, (array id inside).2⟩
      · refine List.forall_mem_cons.mpr ⟨fun _ => by simp, fun id inside listed => ?_⟩
        simpa using taken id inside listed

/-- What every step keeps, all steps keep. -/
theorem keeps_foldl {α : Type} {step : ChannelProjection Row → α → ChannelProjection Row}
    (keeps : ∀ state input, Decrypted state (step state input) ∧ Ignored state (step state input)
      ∧ (Once state → Once (step state input)))
    (inputs : List α) (state : ChannelProjection Row) :
    Decrypted state (inputs.foldl step state) ∧ Ignored state (inputs.foldl step state)
      ∧ (Once state → Once (inputs.foldl step state)) := by
  induction inputs generalizing state with
  | nil => exact ⟨.refl _, .refl _, id⟩
  | cons input rest ih =>
    obtain ⟨decrypted, ignored, once⟩ := keeps state input
    obtain ⟨decrypted', ignored', once'⟩ := ih (step state input)
    exact ⟨decrypted.trans decrypted', ignored.trans ignored', once' ∘ once⟩

/-- The states between the parts of `applyRemote`. -/
theorem applyRemote_get {state : ChannelProjection Row} (once : Once state)
    (entries : List (RemoteEntry Row)) (ignoredEventIds : List Text) (id : Text) :
    (state.applyRemote entries ignoredEventIds).remote.get id
      = (entries.foldl .take (ignoredEventIds.foldl .ignore state)).remote.get id := by
  have known := (keeps_foldl ignore_keeps ignoredEventIds state).2.2 once
  have taken := (keeps_foldl take_keeps entries _).2.2 known
  obtain ⟨new, keys, array, -⟩ := keys_takes entries (ignoredEventIds.foldl .ignore state)
  refine get_reordered taken.keyed (fun id inside => ?_) (fun id inside => ?_) id
  · rw [keys]
    exact List.mem_append_left _ inside
  · rw [keys] at inside
    exact (List.mem_append.mp inside).imp_right fun isNew => (array id isNew).1

/-- A page loses nothing that was decrypted and shows nothing that was ignored. -/
theorem applyRemote_keeps {state : ChannelProjection Row} (once : Once state)
    (entries : List (RemoteEntry Row)) (ignoredEventIds : List Text) :
    Decrypted state (state.applyRemote entries ignoredEventIds)
      ∧ Ignored state (state.applyRemote entries ignoredEventIds)
      ∧ Once (state.applyRemote entries ignoredEventIds) := by
  obtain ⟨decrypted, ignored, once'⟩ := keeps_foldl ignore_keeps ignoredEventIds state
  obtain ⟨decrypted', ignored', once''⟩ :=
    keeps_foldl take_keeps entries (ignoredEventIds.foldl .ignore state)
  have get := applyRemote_get once entries ignoredEventIds
  refine ⟨fun id entry found kind => ?_, fun id inside => ?_, ?_⟩
  · rw [get]
    exact (decrypted.trans decrypted') id entry found kind
  · rw [get]
    exact (ignored.trans ignored') id inside
  · exact (once'' (once' once)).of_fewer (fun id entry found => get id ▸ found) fun _ => id

/-- A local send loses nothing that was decrypted, and shows nothing ignored unless it names an
event. -/
theorem applyLocal_keeps {state : ChannelProjection Row} (once : Once state) (item : SendItem Row) :
    Decrypted state (state.applyLocal item)
      ∧ (item.eventRef = none → Ignored state (state.applyLocal item))
      ∧ Once (state.applyLocal item) := by
  unfold ChannelProjection.applyLocal
  -- A send without an event is local, and one with an event was delivered.
  cases item.eventRef with
  | none =>
    dsimp only
    -- It was echoed before, or it is kept as a local send.
    split
    · exact ⟨.refl _, fun _ => .refl _, once.of_fewer (fun _ _ => id) fun _ => id⟩
    · rename_i silent
      refine ⟨.refl _, fun _ => .refl _, once.keyed, fun clientTxnId inside => ?_⟩
      -- The new key is that of this send.
      have inside' : clientTxnId ∈ state.locals.keys ∨ clientTxnId = item.clientTxnId := by
        simp only [Map.keys_set] at inside
        split at inside
        · exact .inl inside
        · simpa using inside
      rcases inside' with kept | rfl
      · exact once.apart clientTxnId kept
      · exact Bool.not_eq_true _ |>.mp silent
  | some eventId =>
    dsimp only
    -- The event is known already, or the send is the first that tells of it.
    split
    · rename_i known
      exact ⟨.refl _, nofun, once.of_fewer (fun _ _ => id) fun key inside =>
        (mem_keys_delete.mp inside).1⟩
    · rename_i new
      refine ⟨fun id entry found _ =>
        ?_, nofun, Keyed.set once.keyed ⟨eventId, .message (some item.clientTxnId), item.row⟩, ?_⟩
      · rw [Map.get_set, if_neg, found]
        rintro rfl
        exact new (Map.mem_keys.mpr (by rw [found]; rfl))
      -- The send has gone, and other sends are echoed by what echoed them before.
      · intro clientTxnId inside
        obtain ⟨kept, other⟩ := mem_keys_delete.mp inside
        rw [← Bool.not_eq_true, echoed_iff]
        rintro ⟨id, entry, there, kind⟩
        simp only [Map.get_set] at there
        split at there
        · obtain rfl := Option.some.inj there
          simp only [EntryKind.message.injEq, Option.some.injEq] at kind
          exact other kind.symm
        · have echoed := echoed_iff.mpr ⟨id, entry, there, kind⟩
          rw [once.apart clientTxnId kept] at echoed
          cases echoed

end Khala.Timeline
