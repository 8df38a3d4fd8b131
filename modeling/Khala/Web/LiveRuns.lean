import Khala.Web.LiveView

/-! What a subscription publishes in any run: every event that a poll returns, none twice. -/

namespace Khala.LocalWeb

open Js Khala.Local

/-- Some update holds the event. -/
def Published (sub : Subscription) (eventId : Text) : Prop :=
  ∃ update ∈ sub.updates, eventId ∈ update.map (·.eventId)

/-- What holds of every subscription to a room. -/
structure Sound (room : Room) (sub : Subscription) : Prop where
  tracked : ∃ origins, Tracks room.channel.events (sub.page.getD []) origins sub.window
  fresh : sub.phase = .summary ∨ sub.phase = .history → sub.window = .empty ∧ sub.page = none
    ∧ sub.polled = []
  reached : sub.after ≤ room.channel.lastSeq
  published : ∀ id ∈ sub.window.keys, Published sub id
  polled : ∀ event ∈ sub.polled, inWindow event = true → Published sub event.eventId
  once : ∀ update ∈ sub.updates, (update.map (·.eventId)).Nodup
  noHole : ∀ page, sub.page = some page → ∀ shown ∈ timeline room.channel.events,
    (∀ oldest ∈ page.head?, oldest.seq ≤ shown.seq) →
    shown.seq ≤ sub.after → Published sub shown.eventId

/-- A subscription is sound at the start. -/
theorem sound_start (room : Room) : Sound room .start where
  tracked := ⟨[], fun _ none_ => absurd none_ List.not_mem_nil, .nil⟩
  fresh := fun _ => ⟨rfl, rfl, rfl⟩
  reached := Nat.zero_le _
  published := fun _ none_ => absurd none_ List.not_mem_nil
  polled := fun _ none_ => absurd none_ List.not_mem_nil
  once := fun _ none_ => absurd none_ List.not_mem_nil
  noHole := nofun

section

variable {room : Room} {sub : Subscription}

/-- What is published is what is shown, and what was. -/
theorem published_publish {id : Text} :
    Published sub.publish id ↔ Published sub id ∨ id ∈ sub.shown.map (·.eventId) := by
  simp [Published, Subscription.publish, or_and_right, exists_or]

/-- What is shown is what the window holds. -/
theorem shown_ids {log page origins : List LocalEvent}
    (tracks : Tracks log page origins sub.window) :
    sub.shown.map (·.eventId) = sub.window.keys := by
  rw [Subscription.shown, tracks.ids, tracks.keys]

/-- After the window is published, every event in it is in an update. -/
theorem Sound.of_publish {origins : List LocalEvent}
    (tracks : Tracks room.channel.events (sub.page.getD []) origins sub.window)
    (fresh : sub.phase = .summary ∨ sub.phase = .history → sub.window = .empty ∧ sub.page = none
      ∧ sub.polled = [])
    (reached : sub.after ≤ room.channel.lastSeq)
    (polled : ∀ event ∈ sub.polled, inWindow event = true → Published sub event.eventId
      ∨ event.eventId ∈ sub.window.keys)
    (once : ∀ update ∈ sub.updates, (update.map (·.eventId)).Nodup)
    (noHole : ∀ page, sub.page = some page → ∀ shown ∈ timeline room.channel.events,
      (∀ oldest ∈ page.head?, oldest.seq ≤ shown.seq) → shown.seq ≤ sub.after →
      Published sub shown.eventId ∨ shown.eventId ∈ sub.window.keys) :
    Sound room sub.publish where
  tracked := ⟨origins, tracks⟩
  -- The window is as before, so what it holds is what is published now.
  fresh := fresh
  reached := reached
  published := fun id inside => published_publish.mpr (.inr (shown_ids tracks ▸ inside))
  polled := fun event inside taken =>
    published_publish.mpr (shown_ids tracks ▸ polled event inside taken)
  once := by
    intro update inside
    -- An update was published before, or is the window itself, which has no key twice.
    rcases List.mem_append.mp inside with earlier | own
    · exact once update earlier
    · rw [List.mem_singleton.mp own, shown_ids tracks]
      exact sub.window.distinct
  noHole := fun page isPage shown inside fromPage seen =>
    published_publish.mpr (shown_ids tracks ▸ noHole page isPage shown inside fromPage seen)

/-- Stopping keeps a subscription sound. -/
theorem Sound.stop (sound : Sound room sub) : Sound room sub.stop := by
  obtain ⟨origins, tracks⟩ := sound.tracked
  exact { Sound.of_publish tracks sound.fresh sound.reached (fun event inside taken =>
    .inl (sound.polled event inside taken)) sound.once
      (fun page isPage shown inside fromPage seen =>
        .inl (sound.noHole page isPage shown inside fromPage seen)) with fresh := nofun }

/-- A failure keeps a subscription sound. -/
theorem Sound.fail (sound : Sound room sub) : Sound room sub.fail := by
  refine { sound with fresh := fun early => sound.fresh ?_ }
  simp only [Subscription.fail] at early
  split at early
  · rename_i history
    exact .inr history
  · exact early

/-- The summary keeps a subscription sound. -/
theorem Sound.takeSummary (sound : Sound room sub) (phase : sub.phase = .summary) :
    Sound room (sub.takeSummary room.channel.lastSeq) :=
  { sound with
    fresh := fun _ => sound.fresh (.inl phase)
    reached := Nat.le_refl _
    noHole := fun page isPage => by
      rw [Subscription.takeSummary, (sound.fresh (.inl phase)).2.1] at isPage
      cases isPage }

/-- New events have larger numbers than all before. -/
theorem lastSeq_grown {room' : Room} (indexed : room'.channel.Indexed) {more : List LocalEvent}
    (grown : room'.channel.events = room.channel.events ++ more) :
    (∀ event ∈ more, room.channel.lastSeq < event.seq)
      ∧ room.channel.lastSeq ≤ room'.channel.lastSeq := by
  have ascending : Ascending (room.channel.events ++ more) := grown ▸ indexed.ascending
  cases last : room.channel.events.getLast? with
  | none =>
    rw [Channel.lastSeq, last]
    exact ⟨fun event inside => indexed.positive event (grown ▸ List.mem_append_right _ inside),
      Nat.zero_le _⟩
  | some before =>
    rw [Channel.lastSeq, last]
    exact ⟨fun event inside =>
      (List.pairwise_append.mp ascending).2.2 before (List.mem_of_getLast? last) event inside,
      indexed.le_lastSeq (grown ▸ List.mem_append_left _ (List.mem_of_getLast? last))⟩

/-- The room may grow in the meantime. -/
theorem Sound.write (sound : Sound room sub) {room' : Room} (indexed : room'.channel.Indexed)
    {more : List LocalEvent} (grown : room'.channel.events = room.channel.events ++ more) :
    Sound room' sub := by
  have ascending : Ascending (room.channel.events ++ more) := grown ▸ indexed.ascending
  obtain ⟨later, lastSeq⟩ := lastSeq_grown indexed grown
  -- What was published is not touched by a write to the room.
  refine { sound with tracked := ?_, reached := Nat.le_trans sound.reached lastSeq,
                      noHole := fun page isPage shown inside fromPage seen => ?_ }
  · obtain ⟨origins, tracks⟩ := sound.tracked
    exact ⟨origins, grown ▸ tracks.grow ascending⟩
  -- The timeline grows at its end.
  · rw [grown, timeline_append ascending] at inside
    rcases List.mem_append.mp inside with before | new
    · exact sound.noHole page isPage shown before fromPage seen
    · obtain ⟨event, isNew, shows⟩ := List.mem_filterMap.mp new
      -- A new event is past all that the subscription has reached.
      have := later event isNew
      have := (seq_eventId_shownIn shows).1
      have := sound.reached
      omega

/-- No identifier comes twice in a channel. -/
theorem nodup_ids {channel : Channel} (indexed : channel.Indexed) :
    (channel.events.map (·.eventId)).Nodup := by
  rw [List.nodup_iff_pairwise_ne, List.pairwise_map]
  exact indexed.ascending.imp_of_mem fun inside inside' before same => by
    rw [distinct_events indexed _ inside _ inside' same] at before
    exact Nat.lt_irrefl _ before

/-- After the history the window tracks its page. -/
theorem tracks_takeHistory (indexed : room.channel.Indexed) :
    Tracks room.channel.events (room.channel.history none 50).events
      ((pageOrigins room.channel.events).foldl adding [])
      (((room.channel.history none 50).events).foldl store .empty) := by
  rw [history_events indexed]
  refine Tracks.foldl (distinct_events indexed) _ ⟨fun _ none_ => absurd none_ List.not_mem_nil,
    .nil⟩ fun origin inside => ?_
  obtain ⟨inLog, id_, seq_⟩ := mem_pageOrigins inside
  exact ⟨inLog, id_, id_, seq_, .inl (List.mem_map_of_mem inside)⟩

/-- The first page shows all of the history from its oldest event on. -/
theorem Sound.takeHistory (sound : Sound room sub) (indexed : room.channel.Indexed)
    (phase : sub.phase = .history) :
    Sound room (sub.takeHistory (room.channel.history none 50).events) := by
  obtain ⟨window, noPage, noPolled⟩ := sound.fresh (.inr phase)
  have events := history_events indexed
  have tracks := tracks_takeHistory indexed
  rw [← window] at tracks
  have keys : ∀ event ∈ (room.channel.history none 50).events,
      event.eventId ∈ (((room.channel.history none 50).events).foldl store sub.window).keys := by
    intro event inside
    have distinct : ((pageOrigins room.channel.events).map (·.eventId)).Nodup :=
      (nodup_ids indexed).sublist (((List.drop_sublist _ _).trans List.filter_sublist).map _)
    rw [tracks.keys, foldl_adding distinct]
    obtain ⟨origin, isOrigin, rfl⟩ := List.mem_map.mp (events ▸ inside)
    rw [(mem_pageOrigins isOrigin).2.1]
    simpa using ⟨origin, isOrigin, rfl⟩
  refine Sound.of_publish tracks (by simp) sound.reached ?_ sound.once ?_
  · intro event inside
    simp only [noPolled] at inside
    cases inside
  · intro page isPage shown inside fromPage _
    obtain rfl := Option.some.inj isPage
    refine .inr (keys shown ?_)
    -- Behind its first event the page is the end of what is shown.
    rw [history_newest indexed (by decide)] at fromPage ⊢
    have ascending := ascending_timeline indexed.ascending
    have whole := List.take_append_drop ((timeline room.channel.events).length - 50)
      (timeline room.channel.events)
    rw [← whole] at inside ascending
    rcases List.mem_append.mp inside with before | onPage
    · exfalso
      obtain ⟨-, -, apart⟩ := List.pairwise_append.mp ascending
      cases first :
        ((timeline room.channel.events).drop ((timeline room.channel.events).length - 50)).head?
        with
      | none =>
        have empty := List.head?_eq_none_iff.mp first
        rw [List.drop_eq_nil_iff] at empty
        have : (timeline room.channel.events).length = 0 := by omega
        rw [List.length_eq_zero_iff.mp this] at before
        cases before
      | some oldest =>
        have after := fromPage oldest first
        have := apart shown before oldest (List.mem_of_head? first)
        omega
    · exact onPage

end

/-! ## Polls -/

/-- The events of the log that a poll returns. -/
def polledOrigins (log : List LocalEvent) (after : Nat) : List LocalEvent :=
  (log.filter (after < ·.seq)).take 200

/-- Those of them that the window takes. -/
def takenOrigins (log : List LocalEvent) (after : Nat) : List LocalEvent :=
  (polledOrigins log after).filter fun origin => inWindow (deliveredIn log origin)

/-- Those of them that it does not hold yet. -/
def newOrigins (log : List LocalEvent) (after : Nat) (origins : List LocalEvent) :
    List LocalEvent :=
  (takenOrigins log after).filter fun origin => origin.eventId ∉ origins.map (·.eventId)

/-- The window after a poll. -/
def afterPoll (log : List LocalEvent) (after : Nat) (origins : List LocalEvent) : List LocalEvent :=
  (origins ++ newOrigins log after origins).drop
    ((origins ++ newOrigins log after origins).length - 200)

/-- Trimming leaves the others in their order. -/
theorem keys_trimmed (window : Map Text LocalEvent) :
    (trimmed window).keys.Sublist window.keys := by
  simp only [Map.keys, trimmed]
  exact List.Sublist.map Prod.fst (List.drop_sublist _ _)

/-- The loop over the events of a poll leaves the rest of the subscription alone. -/
theorem receive_keeps (sub : Subscription) (events : List LocalEvent) :
    (sub.receive events).phase = sub.phase ∧ (sub.receive events).page = sub.page
      ∧ (sub.receive events).updates = sub.updates
      ∧ (sub.receive events).polled = sub.polled ++ events := by
  rw [Subscription.receive]
  exact ⟨rfl, rfl, rfl, rfl⟩

/-- Receiving events publishes nothing. -/
theorem published_receive {sub : Subscription} {events : List LocalEvent} {id : Text} :
    Published (sub.receive events) id ↔ Published sub id := by
  simp only [Published, Subscription.receive]

/-- The number polled from is the greatest that was met. -/
theorem foldl_max_spec (events : List LocalEvent) (after : Nat) :
    after ≤ events.foldl (fun after event => max after event.seq) after
      ∧ (∀ event ∈ events, event.seq ≤ events.foldl (fun after event => max after event.seq) after)
      ∧ (events.foldl (fun after event => max after event.seq) after = after
        ∨ ∃ event ∈ events, event.seq = events.foldl (fun after event =>
          max after event.seq) after) := by
  induction events generalizing after with
  | nil => exact ⟨Nat.le_refl _, fun _ none_ => absurd none_ List.not_mem_nil, .inl rfl⟩
  | cons event rest ih =>
    -- The first event raises the mark, or it was as high already.
    obtain ⟨le, all, reached⟩ := ih (max after event.seq)
    refine ⟨Nat.le_trans (Nat.le_max_left _ _) le,
      List.forall_mem_cons.mpr ⟨Nat.le_trans (Nat.le_max_right _ _) le, all⟩, ?_⟩
    rw [List.foldl_cons]
    -- The greatest place is that of the start, of this event or of a later one.
    rcases reached with same | ⟨other, inside, same⟩
    · rw [same]
      rcases Nat.le_total event.seq after with less | more
      · exact .inl (Nat.max_eq_left less)
      · exact .inr ⟨event, List.mem_cons_self, (Nat.max_eq_right more).symm⟩
    · exact .inr ⟨other, List.mem_cons_of_mem _ inside, same⟩

section

variable {room : Room} {sub : Subscription}

/-- What is polled is past the number polled from. -/
theorem mem_polledOrigins {log : List LocalEvent} {after : Nat} {origin : LocalEvent}
    (inside : origin ∈ polledOrigins log after) :
    origin ∈ log ∧ after < origin.seq := by
  obtain ⟨inLog, later⟩ := List.mem_filter.mp (List.mem_of_mem_take inside)
  exact ⟨inLog, of_decide_eq_true later⟩

/-- A poll returns everything up to the last event that it returns. -/
theorem polledOrigins_of_le {log : List LocalEvent} (ascending : Ascending log) {after : Nat}
    {origin last : LocalEvent} (inside : origin ∈ log) (later : after < origin.seq)
    (isLast : last ∈ polledOrigins log after) (le : origin.seq ≤ last.seq) :
    origin ∈ polledOrigins log after := by
  have there : origin ∈ log.filter (after < ·.seq) :=
    List.mem_filter.mpr ⟨inside, decide_eq_true later⟩
  have whole := List.take_append_drop 200 (log.filter (after < ·.seq))
  have ordered : Ascending (log.filter (after < ·.seq)) := ascending.filter _
  rw [← whole] at there ordered
  rcases List.mem_append.mp there with front | behind
  · exact front
  · have := (List.pairwise_append.mp ordered).2.2 last isLast origin behind
    omega

/-- What is taken is some of the log, in its order. -/
theorem takenOrigins_sublist (log : List LocalEvent) (after : Nat) :
    (takenOrigins log after).Sublist log :=
  List.filter_sublist.trans ((List.take_sublist _ _).trans List.filter_sublist)

/-- The events that come new into the window are the last of it. -/
theorem newOrigins_mem_afterPoll {log origins : List LocalEvent} {after : Nat} {origin : LocalEvent}
    (inside : origin ∈ newOrigins log after origins) : origin ∈ afterPoll log after origins := by
  have few : (newOrigins log after origins).length ≤ 200 :=
    Nat.le_trans (List.length_filter_le _ _)
      (Nat.le_trans (List.length_filter_le _ _) (List.length_take_le _ _))
  have kept : (origins ++ newOrigins log after origins).length - 200 ≤ origins.length := by
    rw [List.length_append]
    omega
  rw [afterPoll, List.drop_append_of_le_length kept]
  exact List.mem_append_right _ inside

/-- A poll delivers what is past its number. -/
theorem eventsAfter_origins (indexed : room.channel.Indexed) (after : Nat) :
    room.channel.eventsAfter after 200 = (polledOrigins room.channel.events after).map
      (deliveredIn room.channel.events) :=
  eventsAfter_eq indexed after 200

/-- After a poll the window tracks what was delivered. -/
theorem tracks_takePoll (indexed : room.channel.Indexed) {page origins : List LocalEvent}
    (tracks : Tracks room.channel.events page origins sub.window) :
    Tracks room.channel.events page (afterPoll room.channel.events sub.after origins)
      (sub.receive (room.channel.eventsAfter sub.after 200)).window := by
  have taken : (room.channel.eventsAfter sub.after 200).filter inWindow
      = (takenOrigins room.channel.events sub.after).map (deliveredIn room.channel.events) := by
    rw [eventsAfter_origins indexed, List.filter_map]
    rfl
  have distinct : ((takenOrigins room.channel.events sub.after).map (·.eventId)).Nodup :=
    (nodup_ids indexed).sublist ((takenOrigins_sublist _ _).map _)
  rw [Subscription.receive, taken, afterPoll, newOrigins, ← foldl_adding distinct]
  refine Tracks.trimmed (tracks.foldl (distinct_events indexed) _ fun origin inside => ?_)
  have inLog := (takenOrigins_sublist _ _).subset inside
  exact ⟨inLog, eventId_deliveredIn _ _, eventId_deliveredIn _ _, seq_deliveredIn _ _, .inr rfl⟩

/-- No event that a poll returns is left out: it is in the window now, or it was in the one
published before. -/
theorem Sound.takePoll (sound : Sound room sub) (indexed : room.channel.Indexed)
    (phase : sub.phase = .polling) :
    Sound room (sub.takePoll (room.channel.eventsAfter sub.after 200)) := by
  obtain ⟨origins, tracks⟩ := sound.tracked
  obtain ⟨phase', page', updates', polled'⟩ :=
    receive_keeps sub (room.channel.eventsAfter sub.after 200)
  have tracks' := tracks_takePoll indexed tracks
  have returned := eventsAfter_origins indexed sub.after
  obtain ⟨le, all, last⟩ := foldl_max_spec (room.channel.eventsAfter sub.after 200) sub.after
  -- Each event of the poll is published, or stands in the window now.
  have inPoll : ∀ event ∈ room.channel.eventsAfter sub.after 200, inWindow event = true →
      Published sub event.eventId
        ∨ event.eventId ∈ (sub.receive (room.channel.eventsAfter sub.after 200)).window.keys := by
    intro event inside taken
    obtain ⟨origin, isOrigin, rfl⟩ := List.mem_map.mp (returned ▸ inside)
    rw [eventId_deliveredIn]
    by_cases held : origin.eventId ∈ origins.map (·.eventId)
    · exact .inl (sound.published _ (tracks.keys ▸ held))
    · have new : origin ∈ newOrigins room.channel.events sub.after origins :=
        List.mem_filter.mpr ⟨List.mem_filter.mpr ⟨isOrigin, taken⟩, decide_eq_true held⟩
      rw [tracks'.keys]
      exact .inr (List.mem_map_of_mem (newOrigins_mem_afterPoll new))
  -- No poll goes beyond the end of the log.
  have reached :
    (sub.receive (room.channel.eventsAfter sub.after 200)).after ≤ room.channel.lastSeq := by
    rw [Subscription.receive]
    rcases last with same | ⟨event, inside, same⟩
    · rw [same]
      exact sound.reached
    · obtain ⟨origin, isOrigin, rfl⟩ := List.mem_map.mp (returned ▸ inside)
      rw [← same, seq_deliveredIn]
      exact indexed.le_lastSeq (mem_polledOrigins isOrigin).1
  -- What the history shows up to the new number was shown before, or this poll returned it.
  have noHole : ∀ page, sub.page = some page → ∀ shown ∈ timeline room.channel.events,
    (∀ oldest ∈ page.head?, oldest.seq ≤ shown.seq) →
      shown.seq ≤ (sub.receive (room.channel.eventsAfter sub.after 200)).after →
      Published sub shown.eventId
        ∨ shown.eventId ∈ (sub.receive (room.channel.eventsAfter sub.after 200)).window.keys := by
    intro page isPage shown inside fromPage seen
    simp only [Subscription.receive] at seen
    by_cases before : shown.seq ≤ sub.after
    · exact .inl (sound.noHole page isPage shown inside fromPage before)
    · obtain ⟨origin, inLog, shows⟩ := List.mem_filterMap.mp inside
      obtain ⟨seq_, id_⟩ := seq_eventId_shownIn shows
      rcases last with same | ⟨event, isEvent, same⟩
      · omega
      · obtain ⟨lastOrigin, isLast, rfl⟩ := List.mem_map.mp (returned ▸ isEvent)
        rw [seq_deliveredIn] at same
        have isOrigin := polledOrigins_of_le indexed.ascending inLog (by omega) isLast (by omega)
        have inAnswer :
          deliveredIn room.channel.events origin ∈ room.channel.eventsAfter sub.after 200 :=
          returned ▸ List.mem_map_of_mem isOrigin
        have := inPoll _ inAnswer (inWindow_deliveredIn (by rw [shows]; rfl))
        rwa [eventId_deliveredIn, ← id_] at this
  have polled : ∀ event ∈ sub.polled ++ room.channel.eventsAfter sub.after 200,
    inWindow event = true →
      Published sub event.eventId
        ∨ event.eventId ∈ (sub.receive (room.channel.eventsAfter sub.after 200)).window.keys := by
    intro event inside taken
    rcases List.mem_append.mp inside with before | now
    · exact .inl (sound.polled event before taken)
    · exact inPoll event now taken
  have later : ¬ ((sub.receive (room.channel.eventsAfter sub.after 200)).phase = .summary
      ∨ (sub.receive (room.channel.eventsAfter sub.after 200)).phase = .history) := by
        simp [phase', phase]
  have once := sound.once
  rw [← page'] at tracks' noHole
  rw [← updates'] at once
  rw [← polled'] at polled
  -- A poll that brought nothing publishes nothing.
  unfold Subscription.takePoll
  split
  · rename_i none_
    have empty : room.channel.eventsAfter sub.after 200 = [] := List.isEmpty_iff.mp none_
    have fewer : ∀ id ∈ (sub.receive (room.channel.eventsAfter sub.after 200)).window.keys,
      Published sub id := by
      intro id inside
      rw [empty] at inside
      exact sound.published id ((keys_trimmed _).subset inside)
    exact {
      tracked := ⟨_, tracks'⟩
      fresh := fun early => absurd early later
      reached := reached
      published := fun id inside => published_receive.mpr (fewer id inside)
      polled := fun event inside taken =>
        published_receive.mpr ((polled event inside taken).elim id (fewer _))
      once := once
      noHole := fun page isPage shown inside fromPage seen =>
        published_receive.mpr ((noHole page isPage shown inside fromPage seen).elim id (fewer _)) }
  · refine Sound.of_publish tracks' (fun early => absurd early later) reached
      (fun event inside taken => ?_) once
      fun page isPage shown inside fromPage seen => ?_
    · rw [published_receive]
      exact polled event inside taken
    · rw [published_receive]
      exact noHole page isPage shown inside fromPage seen

end

end Khala.LocalWeb
