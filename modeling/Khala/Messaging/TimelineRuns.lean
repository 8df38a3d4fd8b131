import Khala.Messaging.TimelineOrder

/-! What a timeline shows after any calls. -/

namespace Khala.Timeline

open Js

variable {Row : Type}

/-- The events among some rows. -/
def listed (rows : List (TimelineEntry Row)) : List Text :=
  rows.filterMap fun
    | .remote entry => some entry.eventId
    | .localSend _ _ => none

/-- The state after some calls. -/
abbrev run (calls : List (Call Row)) : ChannelProjection Row := ChannelProjection.initial.run calls

/-- Every array is accepted where it arrives, and no send names its event. -/
def Arrays (accepts : List Text → List Text → List Text → Prop) :
    ChannelProjection Row → List (Call Row) → Prop
  | _, [] => True
  | state, .applyRemote entries ignoredEventIds :: rest =>
    accepts (state.ignoring ignoredEventIds).remote.keys (state.ignoring ignoredEventIds).ignored
      (idsOf entries)
      ∧ Arrays accepts (state.applyRemote entries ignoredEventIds) rest
  | state, .applyLocal item :: rest =>
    item.eventRef = none ∧ Arrays accepts (state.applyLocal item) rest

/-- At first each entry is there once. -/
theorem once_initial : Once (ChannelProjection.initial : ChannelProjection Row) :=
  ⟨fun _ _ found => (by cases found), fun _ inside => absurd inside List.not_mem_nil⟩

/-- Every call leaves each entry there once. -/
theorem apply_once {state : ChannelProjection Row} (once : Once state) (call : Call Row) :
    Once (state.apply call) := by
  cases call with
  | applyRemote entries ignoredEventIds =>
    exact (applyRemote_keeps once entries ignoredEventIds).2.2
  | applyLocal item => exact (applyLocal_keeps once item).2.2

/-- All calls leave each entry there once. -/
theorem run_once {state : ChannelProjection Row} (once : Once state) (calls : List (Call Row)) :
    Once (state.run calls) := by
  induction calls generalizing state with
  | nil => exact once
  | cons call rest ih => exact ih (apply_once once call)

/-- No call loses what was decrypted. -/
theorem run_decrypted {state : ChannelProjection Row} (once : Once state)
    (calls : List (Call Row)) : Decrypted state (state.run calls) := by
  induction calls generalizing state with
  | nil => exact .refl _
  | cons call rest ih =>
    refine Decrypted.trans ?_ (ih (apply_once once call))
    cases call with
    | applyRemote entries ignoredEventIds =>
      exact (applyRemote_keeps once entries ignoredEventIds).1
    | applyLocal item => exact (applyLocal_keeps once item).1

/-- No call shows what was ignored, when no local send names its event. -/
theorem run_ignored {state : ChannelProjection Row} (once : Once state) {calls : List (Call Row)}
    (unnamed : ∀ item, .applyLocal item ∈ calls → item.eventRef = none) :
    Ignored state (state.run calls) := by
  induction calls generalizing state with
  | nil => exact .refl _
  | cons call rest ih =>
    refine Ignored.trans ?_ (ih (apply_once once call) fun item inside =>
      unnamed item (List.mem_cons_of_mem _ inside))
    cases call with
    | applyRemote entries ignoredEventIds =>
      exact (applyRemote_keeps once entries ignoredEventIds).2.1
    | applyLocal item => exact (applyLocal_keeps once item).2.1 (unnamed item List.mem_cons_self)

/-- Events stay listed unless they are ignored. -/
def Kept (before after : ChannelProjection Row) : Prop :=
  ∀ id, id ∈ before.remote.keys ∨ id ∈ before.ignored → id ∈ after.remote.keys ∨ id ∈ after.ignored

/-- Ignoring events keeps the other entries. -/
theorem ignoring_kept (ignoredEventIds : List Text) (state : ChannelProjection Row) :
    Kept state (state.ignoring ignoredEventIds) := by
  induction ignoredEventIds generalizing state with
  | nil => exact fun _ => id
  | cons eventId rest ih =>
    refine fun id inside => ih (state.ignore eventId) id ?_
    -- An entry that is known stays so, unless it is the one ignored.
    rcases inside with known | ignored
    · by_cases same : id = eventId
      · refine .inr ?_
        simp only [ChannelProjection.ignore]
        split
        · rename_i there
          exact same ▸ there
        · exact same ▸ List.mem_append_right _ List.mem_cons_self
      · refine .inl ?_
        simp only [ChannelProjection.ignore]
        split
        · exact mem_keys_delete.mpr ⟨known, same⟩
        · exact known
    -- What was ignored stays so.
    · exact .inr ((ignore_keeps state eventId).2.1 id ignored).1

/-- Taking entries ignores nothing. -/
theorem ignored_takes (entries : List (RemoteEntry Row)) (state : ChannelProjection Row) :
    (entries.foldl .take state).ignored = state.ignored := by
  induction entries generalizing state with
  | nil => rfl
  | cons entry rest ih => rw [List.foldl_cons, ih, ignored_take]

/-- An array is listed but for what is ignored. -/
theorem applyRemote_kept {state : ChannelProjection Row} (once : Once state)
    (entries : List (RemoteEntry Row)) (ignoredEventIds : List Text) :
    Kept state (state.applyRemote entries ignoredEventIds)
      ∧ ∀ id ∈ idsOf entries, id ∈ (state.applyRemote entries ignoredEventIds).remote.keys
        ∨ id ∈ (state.applyRemote entries ignoredEventIds).ignored := by
  obtain ⟨new, keys, -, taken⟩ := keys_takes entries (state.ignoring ignoredEventIds)
  -- The entries after the page are those taken, in another order.
  have mem : ∀ id, id ∈ (state.ignoring ignoredEventIds).remote.keys ++ new →
    id ∈ (state.applyRemote entries ignoredEventIds).remote.keys := by
    intro id inside
    rw [Map.mem_keys, applyRemote_get once, ← Map.mem_keys, keys]
    exact inside
  have ignored : (state.applyRemote entries ignoredEventIds).ignored
    = (state.ignoring ignoredEventIds).ignored := ignored_takes entries _
  rw [ignored]
  -- What was there is kept, and what is on the page is taken or ignored.
  refine ⟨fun id inside => ?_, fun id inside => ?_⟩
  · rw [ignored]
    exact (ignoring_kept ignoredEventIds state id inside).imp_left fun known =>
      mem id (List.mem_append_left _ known)
  · by_cases gone : id ∈ (state.ignoring ignoredEventIds).ignored
    · exact .inr gone
    · exact .inl (mem id (taken id inside gone))

/-- A local send keeps the entries. -/
theorem applyLocal_kept (state : ChannelProjection Row) (item : SendItem Row) :
    Kept state (state.applyLocal item) := by
  intro id inside
  unfold ChannelProjection.applyLocal
  -- A local send takes no entry away.
  split
  · refine inside.imp_left fun known => ?_
    dsimp only
    split
    · exact known
    · rw [Map.keys_set]
      split
      · exact known
      · exact List.mem_append_left _ known
  · split <;> exact inside

/-- All calls keep the entries. -/
theorem run_kept {state : ChannelProjection Row} (once : Once state) (calls : List (Call Row)) :
    Kept state (state.run calls) := by
  induction calls generalizing state with
  | nil => exact fun _ => id
  | cons call rest ih =>
    intro id inside
    refine ih (apply_once once call) id ?_
    cases call with
    | applyRemote entries ignoredEventIds => exact (applyRemote_kept once entries ignoredEventIds).1 id inside
    | applyLocal item => exact applyLocal_kept state item id inside

/-- All calls leave the room's order, when each page is anchored. -/
theorem run_order {room : List Text} (distinct : room.Nodup) {state : ChannelProjection Row}
    (once : Once state) (inRoom : state.remote.keys.Sublist room) {calls : List (Call Row)}
    (arrays : Arrays (Anchored room) state calls) :
    (state.run calls).remote.keys.Sublist room := by
  induction calls generalizing state with
  | nil => exact inRoom
  | cons call rest ih =>
    -- A page keeps the order by its lemma, and a send without an event changes no entry.
    cases call with
    | applyRemote entries ignoredEventIds =>
      exact ih (apply_once once _) (applyRemote_order distinct once inRoom arrays.1) arrays.2
    | applyLocal item =>
      refine ih (apply_once once _) ?_ arrays.2
      have same : (state.applyLocal item).remote = state.remote := by
        simp only [ChannelProjection.applyLocal, arrays.1]
        split <;> rfl
      rw [ChannelProjection.apply, same]
      exact inRoom

/-- The entries that are listed are those from the room. -/
theorem listed_entries {state : ChannelProjection Row} (once : Once state) :
    listed state.entries = state.remote.keys := by
  have own : ∀ entry ∈ state.remote.entries, entry.2.eventId = entry.1 := fun entry inside =>
    once.keyed entry.1 entry.2 (Map.get_eq_some.mpr inside)
  -- A local send is no entry of the room.
  have none_ : (state.locals.entries.map fun send => (TimelineEntry.localSend send.1 send.2 : TimelineEntry Row)).filterMap
      (fun | .remote entry => some entry.eventId | .localSend _ _ => none) = [] := by
    simp [List.filterMap_map]
  rw [listed, ChannelProjection.entries, List.filterMap_append, none_, List.append_nil, List.filterMap_map, Map.keys]
  -- Each entry stands under its own identifier.
  have image : ∀ entries : List (Text × RemoteEntry Row), (∀ entry ∈ entries, entry.2.eventId = entry.1) →
      entries.filterMap ((fun | .remote entry => some entry.eventId | .localSend _ _ => none : TimelineEntry Row → Option Text)
        ∘ fun entry => .remote entry.2) = entries.map Prod.fst := by
    intro entries own
    induction entries with
    | nil => rfl
    | cons entry rest ih =>
      rw [List.filterMap_cons]
      simp only [Function.comp_apply, List.map_cons, own entry List.mem_cons_self]
      rw [← ih fun other inside => own other (List.mem_cons_of_mem _ inside)]
      rfl
  exact image _ own

/-- The entries from the room are those that were taken. -/
theorem remote_mem_entries {state : ChannelProjection Row} {entry : RemoteEntry Row} :
    TimelineEntry.remote entry ∈ state.entries ↔ ∃ id, state.remote.get id = some entry := by
  simp [ChannelProjection.entries, Map.get_eq_some]

/-- A local send that is listed is there. -/
theorem localSend_mem_entries {state : ChannelProjection Row} {clientTxnId : Text} {row : Row}
    (inside : TimelineEntry.localSend clientTxnId row ∈ state.entries) :
    clientTxnId ∈ state.locals.keys := by
  simp only [ChannelProjection.entries, List.mem_append, List.mem_map, reduceCtorEq, and_false,
    exists_false, false_or,
    TimelineEntry.localSend.injEq] at inside
  obtain ⟨send, isSend, rfl, -⟩ := inside
  exact List.mem_map_of_mem isSend

/-- After any calls every event is listed once, and no send both as a local row and as a message;
decrypted events stay, and ignored ones stay away. When every array can be anchored, the events come
in the order of the room. -/
theorem timeline_projection {room : List Text} (distinct : room.Nodup) (calls : List (Call Row)) :
    (listed (run calls).entries).Nodup
    ∧ (∀ entries ignoredEventIds, .applyRemote entries ignoredEventIds ∈ calls → ∀ entry ∈ entries,
      entry.eventId ∈ listed (run calls).entries ∨ entry.eventId ∈ (run calls).ignored)
    ∧ (∀ clientTxnId row entry, .localSend clientTxnId row ∈ (run calls).entries →
      .remote entry ∈ (run calls).entries →
      entry.kind ≠ .message (some clientTxnId))
    ∧ (Arrays (Anchored room) .initial calls → (listed (run calls).entries).Sublist room)
    ∧ ∀ earlier later, earlier ++ later = calls →
      (∀ entry, .remote entry ∈ (run earlier).entries → entry.kind ≠ .unavailable →
        .remote entry ∈ (run calls).entries)
      ∧ ((∀ item, .applyLocal item ∈ later → item.eventRef = none) → ∀ id ∈ (run earlier).ignored,
        id ∉ listed (run earlier).entries → id ∉ listed (run calls).entries) := by
  -- In each state a send stands at most once.
  have once : ∀ calls : List (Call Row), Once (run calls) := run_once once_initial
  rw [listed_entries (once calls)]
  refine ⟨(run calls).remote.distinct, fun entries ignoredEventIds inside entry isEntry =>
    ?_, fun clientTxnId row entry sent isEntry kind => ?_,
    run_order distinct once_initial (List.nil_sublist room), fun earlier later whole => ?_⟩
  -- What the page brought is there after it, and stays.
  · obtain ⟨earlier, later, rfl⟩ := List.append_of_mem inside
    have here :=
      (applyRemote_kept (once earlier) entries ignoredEventIds).2 entry.eventId
      (List.mem_map_of_mem isEntry)
    have there :=
      run_kept (apply_once (once earlier) (.applyRemote entries ignoredEventIds)) later
      entry.eventId here
    simpa only [run, ChannelProjection.run, List.foldl_append, List.foldl_cons] using there
  -- A send that is there was echoed by no entry.
  · have silent := (once calls).apart clientTxnId (localSend_mem_entries sent)
    obtain ⟨id, found⟩ := remote_mem_entries.mp isEntry
    rw [echoed_iff.mpr ⟨id, entry, found, kind⟩] at silent
    cases silent
  -- The calls are cut in two, and the later ones run from what the earlier ones left.
  · subst whole
    have later_ : run (earlier ++ later) = (run earlier).run later := List.foldl_append
    rw [later_]
    refine ⟨fun entry isEntry kind => ?_, fun unnamed id ignored absent inside => ?_⟩
    · obtain ⟨id, found⟩ := remote_mem_entries.mp isEntry
      exact remote_mem_entries.mpr ⟨id, run_decrypted (once earlier) later id entry found kind⟩
    · rw [listed_entries (once earlier), Map.mem_keys] at absent
      have none_ : (run earlier).remote.get id = none := by simpa using absent
      rw [Map.mem_keys, (run_ignored (once earlier) unnamed id ignored).2 none_] at inside
      cases inside

/-- An undecorated message. -/
def plainMessage (eventId : Text) : RemoteEntry Unit := ⟨eventId, .message none, ()⟩

/-- A page of history that ends in a known message. -/
def pagedCalls : List (Call Unit) :=
  [.applyRemote [plainMessage (lit "c"), plainMessage (lit "d")] [],
    .applyRemote [plainMessage (lit "a"), plainMessage (lit "b"), plainMessage (lit "c")] []]

/-- Two pages of a room, the later one first. -/
theorem timeline_projection_paged :
    Arrays (Anchored [lit "a", lit "b", lit "c", lit "d"]) .initial pagedCalls
    ∧ listed (run pagedCalls).entries = [lit "a", lit "b", lit "c", lit "d"]
    ∧ (listed (run pagedCalls).entries).Sublist [lit "a", lit "b", lit "c", lit "d"] := by
  have arrays : Arrays (Anchored [lit "a", lit "b", lit "c", lit "d"]) .initial pagedCalls :=
    ⟨⟨[lit "a", lit "b"], [], rfl, .inl (by decide)⟩,
      ⟨[], [lit "d"], rfl, .inr fun last isLast => by
      obtain rfl := Option.some.inj isLast
      decide⟩, trivial⟩
  exact ⟨arrays, by decide, (timeline_projection (by decide) pagedCalls).2.2.2.1 arrays⟩

/-- An interval of the room that shares an event with what is known, or lies after it. -/
def Shares (room known ids : List Text) : Prop :=
  ∃ left right, room = left ++ ids ++ right ∧ ((∃ id ∈ ids, id ∈ known) ∨ ∀ id ∈ known, id ∈ left)

/-- A gap that is filled from its lower end. -/
def gapCalls : List (Call Unit) :=
  [.applyRemote [plainMessage (lit "a")] [], .applyRemote [plainMessage (lit "d")] [],
    .applyRemote [plainMessage (lit "a"), plainMessage (lit "b")] []]

/-- What fills a gap from its lower end comes after what lies above it. -/
theorem gap_filled_from_below : ¬ ∀ (room : List Text), room.Nodup → ∀ calls : List (Call Unit),
    Arrays (fun known _ ids => Shares room known ids) .initial calls →
    (listed (run calls).entries).Sublist room := by
  intro ordered
  have arrays :
    Arrays (fun known _ ids => Shares [lit "a", lit "b", lit "d"] known ids) .initial gapCalls :=
    ⟨⟨[], [lit "b", lit "d"], rfl, .inr (by decide)⟩,
      ⟨[lit "a", lit "b"], [], rfl, .inr (by decide)⟩,
      ⟨[], [lit "d"], rfl, .inl ⟨lit "a", by decide, by decide⟩⟩, trivial⟩
  exact absurd (ordered [lit "a", lit "b", lit "d"] (by decide) gapCalls arrays) (by decide)

end Khala.Timeline
