import Khala.Web.LocalSubstrate
import Mathlib.Data.List.Forall2

/-! The window of a subscription: which events it holds, where they stand, and what leaves it. -/

namespace Khala.LocalWeb

open Js Khala.Local

/-- The events with a larger number are those that polls return. -/
theorem eventsAfter_eq {channel : Channel} (indexed : channel.Indexed) (after limit : Nat) :
    channel.eventsAfter after limit
      = ((channel.events.filter (after < ·.seq)).take limit).map (deliveredIn channel.events) := by
  -- In an ascending log the events up to a number stand in front of those behind it.
  have general : ∀ events : List LocalEvent, Ascending events →
      events = events.filter (·.seq ≤ after) ++ events.filter (after < ·.seq) := by
    intro events
    induction events with
    | nil => exact fun _ => rfl
    | cons event rest ih =>
      intro ascending
      obtain ⟨first, ascending'⟩ := List.pairwise_cons.mp ascending
      by_cases reached : event.seq ≤ after
      · rw [List.filter_cons_of_pos (by simpa using reached),
          List.filter_cons_of_neg (by simpa using reached), List.cons_append,
          ← ih ascending']
      · have later : ∀ other ∈ rest, after < other.seq := fun other inside => by
          have := first other inside
          omega
        rw [List.filter_cons_of_neg (by simpa using reached),
          List.filter_cons_of_pos (by simpa using reached),
          List.filter_eq_nil_iff.mpr fun other inside => by simpa using later other inside,
          List.filter_eq_self.mpr
            fun other inside => by simpa using later other inside, List.nil_append]
  exact eventsAfter_split indexed (general _ indexed.ascending)
    (fun event inside => by simpa using (List.mem_filter.mp inside).2)
    (fun event inside => by simpa using (List.mem_filter.mp inside).2) limit

/-! ## Origins -/

/-- An entry of the window stands for an event of the log, as the page or a poll gave it. -/
structure StandsFor (log page : List LocalEvent) (origin : LocalEvent) (entry : Text × LocalEvent) :
    Prop where
  key : entry.1 = origin.eventId
  eventId : entry.2.eventId = origin.eventId
  seq : entry.2.seq = origin.seq
  given : entry.2 ∈ page ∨ entry.2 = deliveredIn log origin

/-- The events of the log that the window holds, in its order. -/
structure Tracks (log page origins : List LocalEvent) (window : Map Text LocalEvent) : Prop where
  inside : ∀ origin ∈ origins, origin ∈ log
  entries : List.Forall₂ (StandsFor log page) origins window.entries

section

variable {log page origins : List LocalEvent} {window : Map Text LocalEvent}

/-- The window holds the identifiers of what it tracks. -/
theorem Tracks.keys (tracks : Tracks log page origins window) :
    window.keys = origins.map (·.eventId) := by
  have general : ∀ {origins : List LocalEvent} {entries : List (Text × LocalEvent)},
    List.Forall₂ (StandsFor log page) origins entries →
      entries.map Prod.fst = origins.map (·.eventId) := by
    intro origins entries each
    induction each with
    | nil => rfl
    | cons stands _ ih => rw [List.map_cons, List.map_cons, ih, stands.key]
  exact general tracks.entries

/-- The events of the window have the identifiers of what it tracks. -/
theorem Tracks.ids (tracks : Tracks log page origins window) :
    (window.entries.map Prod.snd).map (·.eventId) = origins.map (·.eventId) := by
  have general : ∀ {origins : List LocalEvent} {entries : List (Text × LocalEvent)},
    List.Forall₂ (StandsFor log page) origins entries →
      (entries.map Prod.snd).map (·.eventId) = origins.map (·.eventId) := by
    intro origins entries each
    induction each with
    | nil => rfl
    | cons stands _ ih => rw [List.map_cons, List.map_cons, List.map_cons, ih, stands.eventId]
  exact general tracks.entries

/-- No event is tracked twice. -/
theorem Tracks.nodup (tracks : Tracks log page origins window) : (origins.map (·.eventId)).Nodup :=
  tracks.keys ▸ window.distinct

/-- An event that the window holds keeps its place, another one comes last. -/
def adding (origins : List LocalEvent) (origin : LocalEvent) : List LocalEvent :=
  if origin.eventId ∈ origins.map (·.eventId) then origins else origins ++ [origin]

/-- An event that is stored is tracked. -/
theorem Tracks.store
    (distinct : ∀ one ∈ log, ∀ other ∈ log, one.eventId = other.eventId → one = other)
    (tracks : Tracks log page origins window) {origin event : LocalEvent} (inside : origin ∈ log)
    (stands : StandsFor log page origin (event.eventId, event)) :
    Tracks log page (adding origins origin) (store window event) := by
  refine ⟨fun other there => ?_, ?_⟩
  -- The events that the window stands for are those before and this one.
  · unfold adding at there
    split at there
    · exact tracks.inside other there
    · rcases List.mem_append.mp there with held | same
      · exact tracks.inside other held
      · exact List.mem_singleton.mp same ▸ inside
  · have general : ∀ {origins : List LocalEvent} {entries : List (Text × LocalEvent)},
      List.Forall₂ (StandsFor log page) origins entries →
        (∀ other ∈ origins, other ∈ log) →
        -- The entries and their events are gone through side by side.
        List.Forall₂ (StandsFor log page) (adding origins origin)
          (Map.setEntry event.eventId event entries) := by
      intro origins entries each
      induction each with
      | nil => exact fun _ => .cons stands .nil
      | @cons other entry others rest own others_ ih =>
        intro inLog
        have ih := ih fun other there => inLog other (List.mem_cons_of_mem _ there)
        rw [Map.setEntry]
        -- An entry under the same key stands for the same event, and is written over.
        by_cases hit : entry.1 = event.eventId
        · have same : other = origin := by
            refine distinct other (inLog other List.mem_cons_self) origin inside ?_
            rw [← own.key, hit, ← stands.key]
          subst same
          rw [if_pos hit, adding, if_pos (by simp)]
          exact .cons stands others_
        -- Another entry is left alone, and so is its event.
        · have differs : origin.eventId ≠ other.eventId :=
            fun same => hit (by rw [own.key, ← same, ← stands.key])
          have front : adding (other :: others) origin = other :: adding others origin := by
            unfold adding
            simp only [List.map_cons, List.mem_cons, differs, false_or]
            split <;> rfl
          rw [if_neg hit, front]
          exact .cons own ih
    exact general tracks.entries tracks.inside

/-- Events that come after each other are added in their order. -/
theorem foldl_adding {added : List LocalEvent} (distinct : (added.map (·.eventId)).Nodup)
    (origins : List LocalEvent) :
    added.foldl adding origins = origins ++ added.filter fun origin =>
      origin.eventId ∉ origins.map (·.eventId) := by
  induction added generalizing origins with
  | nil => simp
  | cons origin rest ih =>
    -- The first event is added or is there already.
    obtain ⟨new, distinct'⟩ := List.nodup_cons.mp distinct
    rw [List.foldl_cons, ih distinct']
    unfold adding
    split
    · rename_i held
      rw [List.filter_cons_of_neg (by simpa using held)]
    · rename_i absent
      rw [List.filter_cons_of_pos (by simpa using absent), List.append_assoc, List.singleton_append]
      -- The later ones are looked for among the others as before, since this one is none of them.
      congr 2
      refine List.filter_congr fun other inside => ?_
      have differs : other.eventId ≠ origin.eventId :=
        fun same => new (List.mem_map.mpr ⟨other, inside, same⟩)
      simp [differs]

/-- Events that are stored one by one are tracked. -/
theorem Tracks.foldl
    (distinct : ∀ one ∈ log, ∀ other ∈ log, one.eventId = other.eventId → one = other)
    {added : List LocalEvent} (give : LocalEvent → LocalEvent)
    (tracks : Tracks log page origins window)
    (each : ∀ origin ∈ added, origin ∈ log
      ∧ StandsFor log page origin ((give origin).eventId, give origin)) :
    Tracks log page (added.foldl adding origins)
      ((added.map give).foldl LocalWeb.store window) := by
  induction added generalizing origins window with
  | nil => exact tracks
  | cons origin rest ih =>
    obtain ⟨inside, stands⟩ := each origin List.mem_cons_self
    exact ih (tracks.store distinct inside stands) fun other there =>
      each other (List.mem_cons_of_mem _ there)

/-- A window that is trimmed tracks the last two hundred. -/
theorem Tracks.trimmed (tracks : Tracks log page origins window) :
    Tracks log page (origins.drop (origins.length - 200)) (trimmed window) := by
  refine ⟨fun origin there => tracks.inside origin (List.mem_of_mem_drop there), ?_⟩
  have size : window.entries.length = origins.length := tracks.entries.length_eq.symm
  simp only [LocalWeb.trimmed, size]
  exact List.forall₂_drop _ tracks.entries

/-- Later events of the log change nothing about what the window stands for. -/
theorem Tracks.grow (tracks : Tracks log page origins window) {more : List LocalEvent}
    (ascending : Ascending (log ++ more)) :
    Tracks (log ++ more) page origins window := by
  refine ⟨fun origin there => List.mem_append_left _ (tracks.inside origin there), ?_⟩
  have general : ∀ {origins : List LocalEvent} {entries : List (Text × LocalEvent)},
    List.Forall₂ (StandsFor log page) origins entries →
      (∀ origin ∈ origins, origin ∈ log) →
        List.Forall₂ (StandsFor (log ++ more) page) origins entries := by
    intro origins entries each
    -- Each entry is delivered in the longer log as it was.
    induction each with
    | nil => exact fun _ => .nil
    | cons own _ ih =>
      intro inLog
      refine .cons ⟨own.key, own.eventId, own.seq, own.given.imp_right fun given => ?_⟩
        (ih fun other there => inLog other (List.mem_cons_of_mem _ there))
      rw [given, deliveredIn_append ascending (inLog _ List.mem_cons_self)]
  exact general tracks.entries tracks.inside

end

/-! ## What the server answers -/

/-- Events of one identifier are one. -/
theorem distinct_events {channel : Channel} (indexed : channel.Indexed) :
    ∀ one ∈ channel.events, ∀ other ∈ channel.events, one.eventId = other.eventId →
    one = other := by
  intro one inside other inside' same
  have found := indexed.found one inside
  rw [same, indexed.found other inside'] at found
  exact (Option.some.inj found).symm

/-- The events that a page is made of. -/
def pageOrigins (log : List LocalEvent) : List LocalEvent :=
  (log.filter fun event => (shownIn log event).isSome).drop ((timeline log).length - 50)

/-- The form in which the history shows an event. -/
def shownForm (log : List LocalEvent) (event : LocalEvent) : LocalEvent :=
  (shownIn log event).getD event

/-- The timeline is the events that are shown, as they are shown. -/
theorem timeline_eq (log : List LocalEvent) :
    timeline log = (log.filter fun event => (shownIn log event).isSome).map (shownForm log) := by
  have general : ∀ events : List LocalEvent, events.filterMap (shownIn log)
      = (events.filter fun event => (shownIn log event).isSome).map (shownForm log) := by
    intro events
    -- An event that is shown stands for what it shows, and another one is left out.
    induction events with
    | nil => rfl
    | cons event rest ih =>
      cases shows : shownIn log event with
      | none => rw [List.filterMap_cons_none shows, List.filter_cons_of_neg (by simp [shows]), ih]
      | some shown =>
        rw [List.filterMap_cons_some shows, List.filter_cons_of_pos (by simp [shows]),
          List.map_cons, ih, shownForm, shows]
        rfl
  exact general log

/-- The history is the page's events, as they are shown. -/
theorem history_events {channel : Channel} (indexed : channel.Indexed) :
    (channel.history none 50).events = (pageOrigins channel.events).map
    (shownForm channel.events) := by
  rw [history_newest indexed (by decide), pageOrigins, List.map_drop, ← timeline_eq]
  rfl

/-- An event of the page is shown under its own identifier and number. -/
theorem mem_pageOrigins {log : List LocalEvent} {origin : LocalEvent}
    (inside : origin ∈ pageOrigins log) :
    origin ∈ log ∧ (shownForm log origin).eventId = origin.eventId
      ∧ (shownForm log origin).seq = origin.seq := by
  obtain ⟨inLog, shows⟩ := List.mem_filter.mp (List.mem_of_mem_drop inside)
  obtain ⟨shown, isShown⟩ := Option.isSome_iff_exists.mp shows
  have same := seq_eventId_shownIn isShown
  rw [shownForm, isShown]
  exact ⟨inLog, same.2, same.1⟩

/-- What is delivered of an event has its identifier. -/
theorem eventId_deliveredIn (log : List LocalEvent) (event : LocalEvent) :
    (deliveredIn log event).eventId = event.eventId := by
  unfold deliveredIn
  split <;> rfl

/-- What the history shows is taken into the window when a poll returns it. -/
theorem inWindow_deliveredIn {log : List LocalEvent} {event : LocalEvent}
    (shows : (shownIn log event).isSome = true) :
    inWindow (deliveredIn log event) = true := by
  -- The delivered form has the type of the event.
  have type_ : (deliveredIn log event).type = event.type := by
    unfold deliveredIn
    split <;> rfl
  rw [inWindow, type_]
  unfold shownIn at shows
  -- Only a message, a channel event and a member with an earlier name are shown.
  cases kind : event.type with
  | member =>
    rw [kind] at shows
    cases previous : previousIn log event with
    | none =>
      rw [previous] at shows
      cases shows
    | some content => simp [deliveredIn, previous]
  | message => rfl
  | channelEvent => rfl
  | create => rw [kind] at shows; cases shows
  | name => rw [kind] at shows; cases shows
  | listeningMode => rw [kind] at shows; cases shows

end Khala.LocalWeb
