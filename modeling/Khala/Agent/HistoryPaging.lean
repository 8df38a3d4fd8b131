import Khala.Agent.LocalRuns

/-! Paging through a channel: backwards through its history and forwards through its events, while
it grows. -/

namespace Khala.Local

open Js Decode

/-! ## One page of the history -/

/-- The loop finds what the events before the cutoff show, when its map holds the last membership
contents so far. -/
theorem candidates_eq {cutoff : Option Nat} (rest : List LocalEvent) :
    ∀ (done : List LocalEvent) (previousMembers : Map Text Members), Ascending (done ++ rest) →
      (∀ user, previousMembers.get user = lastContent done user) →
      candidates cutoff previousMembers rest
        = (rest.filterMap (shownIn (done ++ rest))).filter fun shown =>
          cutoff.all (shown.seq < ·) := by
  -- By induction on the events that are left; the map is kept up by the membership events.
  induction rest with
  | nil => exact fun _ _ _ _ => rfl
  | cons event rest ih =>
    intro done previousMembers ascending last
    have whole : done ++ event :: rest = (done ++ [event]) ++ rest := by simp
    rw [candidates]
    split
    · -- From the cutoff on, everything is cut off.
      rename_i cut
      obtain ⟨bound, rfl, reached⟩ : ∃ bound, cutoff = some bound ∧ bound ≤ event.seq := by
        cases cutoff with
        | none => cases cut
        | some bound => exact ⟨bound, rfl, by simpa using cut⟩
      symm
      apply List.filter_eq_nil_iff.mpr
      intro shown inside
      obtain ⟨from_, inside, shows⟩ := List.mem_filterMap.mp inside
      have after : event.seq ≤ from_.seq := by
        rcases List.mem_cons.mp inside with rfl | inside
        · exact Nat.le_refl _
        · exact Nat.le_of_lt
            (List.rel_of_pairwise_cons (List.pairwise_append.mp ascending).2.1 inside)
      have same := (seq_eventId_shownIn shows).1
      simp only [Option.all_some, decide_eq_true_eq]
      omega
    -- Before the cutoff the event is shown, if it is of a kind that is shown.
    · rename_i uncut
      have kept : ∀ (shown : LocalEvent) (more : List LocalEvent), shown.seq = event.seq →
          (shown :: more).filter (fun shown => cutoff.all (shown.seq < ·))
            = shown :: more.filter fun shown => cutoff.all (shown.seq < ·) := by
        intro shown more same
        apply List.filter_cons_of_pos
        cases cutoff with
        | none => rfl
        | some bound =>
          simp only [Option.any_some, decide_eq_true_eq] at uncut
          simp only [Option.all_some, decide_eq_true_eq]
          omega
      -- What was before it is what the map has of its user.
      have before : previousIn (done ++ event :: rest) event
          = if event.type = .member then lastContent done (userOf event.content) else none := by
        rw [previousIn, eventsBefore_split ascending]
      have later : ∀ (members : Map Text Members),
        (∀ user, members.get user = lastContent (done ++ [event]) user) →
          candidates cutoff members rest
            = (rest.filterMap (shownIn (done ++ event :: rest))).filter fun shown =>
              cutoff.all (shown.seq < ·) := by
        intro members same
        rw [whole] at ascending ⊢
        exact ih (done ++ [event]) members ascending same
      -- Only a membership event changes the map.
      have unchanged : event.type ≠ .member →
        ∀ user, previousMembers.get user = lastContent (done ++ [event]) user := by
        intro other user
        rw [lastContent_concat, LocalEvent.isMemberOf, decide_eq_false other]
        exact last user
      rw [List.filterMap_cons, shownIn, before]
      cases kind : event.type with
      | member =>
        have changed : ∀ user, (previousMembers.set (userOf event.content) event.content).get user
            = lastContent (done ++ [event]) user := by
          intro user
          rw [lastContent_concat, Map.get_set, LocalEvent.isMemberOf, kind, last user]
          by_cases same : user = userOf event.content
          · simp [same]
          · simp [same, Ne.symm same]
        simp only [if_true]
        rw [last]
        cases memberRenameContent event.content (lastContent done (userOf event.content)) with
        | none => exact later _ changed
        | some content =>
          simp only [Option.map_some]
          rw [kept { event with type := .channelEvent, content := content.members } _ rfl,
            later _ changed]
      | message =>
        simp only
        rw [kept _ _ rfl, later _ (unchanged (by simp [kind]))]
      | channelEvent =>
        simp only
        rw [kept _ _ rfl, later _ (unchanged (by simp [kind]))]
      | create => exact later _ (unchanged (by simp [kind]))
      | name => exact later _ (unchanged (by simp [kind]))
      | listeningMode => exact later _ (unchanged (by simp [kind]))

/-- What the history shows has the order of the events. -/
theorem ascending_timeline {events : List LocalEvent} (ascending : Ascending events) :
    Ascending (timeline events) := by
  apply List.pairwise_filterMap.mpr
  apply ascending.imp
  intro earlier later before shown shows shown' shows'
  rw [(seq_eventId_shownIn shows).1, (seq_eventId_shownIn shows').1]
  exact before

/-- Later events add to what is shown and change none of it. -/
theorem timeline_append {events more : List LocalEvent} (ascending : Ascending (events ++ more)) :
    timeline (events ++ more) = timeline events ++ more.filterMap (shownIn (events ++ more)) := by
  rw [timeline, List.filterMap_append]
  congr 1
  apply List.filterMap_congr
  intro event inside
  exact shownIn_append ascending inside

/-- The last `limit` of what is shown, and where the next page ends. -/
def lastPage (shown : List LocalEvent) (limit : Nat) : HistoryPage :=
  let events := shown.drop (shown.length - limit)
  ⟨events, if events.length < shown.length then events.head?.map (·.eventId) else none⟩

/-- A page is the end of what was shown before the cutoff. -/
theorem page_eq {channel : Channel} (indexed : channel.Indexed) (cutoff : Option Nat)
    (limit : Nat) :
    channel.page cutoff limit
      = lastPage ((timeline channel.events).filter fun shown =>
        cutoff.all (shown.seq < ·)) limit := by
  have shown := @candidates_eq cutoff channel.events [] Map.empty indexed.ascending fun _ => rfl
  rw [Channel.page, shown]
  rfl

/-- A history without a bound is the newest page of the timeline. -/
theorem history_newest {channel : Channel} (indexed : channel.Indexed) {limit : Nat}
    (positive : 1 ≤ limit) :
    channel.history none limit = lastPage (timeline channel.events) limit := by
  rw [Channel.history, if_neg (by omega), page_eq indexed]
  simp

/-- Before an event that was there early on, a grown channel shows what was shown then. -/
theorem history_before {channel : Channel} (indexed : channel.Indexed)
    {events more : List LocalEvent} (grown : channel.events = events ++ more) {event : LocalEvent}
    (inside : event ∈ events) {limit : Nat} (positive : 1 ≤ limit) :
    channel.history (some event.eventId) limit
      = lastPage (eventsBefore (timeline events) event) limit := by
  -- The log is in the order of its numbers, and the event is found at its place.
  have ascending := indexed.ascending
  have found := indexed.found event (grown ▸ List.mem_append_left _ inside)
  rw [Channel.history, if_neg (by omega)]
  simp only [found]
  rw [page_eq indexed, grown, timeline_append (grown ▸ ascending), List.filter_append]
  -- What was appended later has greater numbers, so none of it lies before the event.
  have gone : (more.filterMap (shownIn (events ++ more))).filter (fun shown =>
    decide (shown.seq < event.seq)) = [] := by
    apply List.filter_eq_nil_iff.mpr
    intro shown shows
    obtain ⟨later, isLater, shows⟩ := List.mem_filterMap.mp shows
    have after := (List.pairwise_append.mp (grown ▸ ascending)).2.2 event inside later isLater
    rw [(seq_eventId_shownIn shows).1]
    simp only [decide_eq_true_eq]
    omega
  simp only [Option.all_some]
  -- Hence the page is that of the earlier log.
  rw [gone, List.append_nil]
  rfl

/-! ## Backwards -/

/-- Following `nextBefore`: the pages, newest first, that the calls give when they find the channel
in the given states. -/
def followBefore (channels : Nat → Channel) (limits : Nat → Nat) :
    (fuel call : Nat) → Option Text → Option (List (List LocalEvent))
  | 0, _, _ => none
  | fuel + 1, call, before =>
    let page := (channels call).history before (limits call)
    match page.nextBefore with
    | none => some [page.events]
    | some next => (followBefore channels limits fuel (call + 1) (some next)).map (page.events :: ·)

section

variable {channels : Nat → Channel} {limits : Nat → Nat}

/-- From a call whose page ends what is left of the shown events, the pages are all of what is left.
-/
private theorem followBefore_left (indexed : ∀ call, (channels call).Indexed)
    (positive : ∀ call, 1 ≤ limits call) {events : List LocalEvent}
    (grown : ∀ call, ∃ more, (channels call).events = events ++ more) :
    ∀ fuel call before left, (∃ after, timeline events = left ++ after) → left.length < fuel →
      (channels call).history before (limits call) = lastPage left (limits call) →
      ∃ pages, followBefore channels limits fuel call before = some pages
        ∧ pages.reverse.flatten = left := by
  have ascending : Ascending events := by
    obtain ⟨more, same⟩ := grown 0
    exact (List.pairwise_append.mp (same ▸ (indexed 0).ascending)).1
  -- By induction on the fuel; every page takes at least one event off the end.
  intro fuel
  induction fuel with
  | zero => exact fun _ _ _ _ enough => absurd enough (Nat.not_lt_zero _)
  | succ fuel ih =>
    intro call before left initial enough page
    rw [followBefore, page]
    have some_ := positive call
    by_cases more : limits call < left.length
    · obtain ⟨kept, first, rest, split⟩ : ∃ kept first rest, left = kept ++ first :: rest
          ∧ left.drop (left.length - limits call) = first :: rest := by
        have cut : left.length - limits call < left.length := by omega
        refine ⟨left.take (left.length - limits call), left[left.length - limits call],
          left.drop (left.length - limits call + 1), ?_, List.drop_eq_getElem_cons cut⟩
        rw [← List.drop_eq_getElem_cons cut, List.take_append_drop]
      obtain ⟨whole, page⟩ := split
      obtain ⟨after, initial⟩ := initial
      -- The first event of the page comes from an event that every later state still has.
      obtain ⟨from_, inside, shows⟩ : ∃ from_ ∈ events, shownIn events from_ = some first := by
        apply List.mem_filterMap.mp
        rw [← timeline, initial, whole]
        simp
      have split :
        timeline events = kept ++ first :: (rest ++ after) := by rw [initial, whole]; simp
      have before : eventsBefore (timeline events) from_ = kept := by
        have shown := ascending_timeline ascending
        rw [split] at shown ⊢
        have front := eventsBefore_split shown
        rwa [eventsBefore, (seq_eventId_shownIn shows).1] at front
      have size := congrArg List.length page
      simp only [List.length_drop, List.length_cons] at size
      have next : (lastPage left (limits call)).nextBefore = some from_.eventId := by
        rw [lastPage, page]
        simp only [List.length_cons, List.head?_cons, Option.map_some,
          (seq_eventId_shownIn shows).2]
        rw [if_pos (by omega)]
      obtain ⟨pages, follow, flat⟩ :=
        ih (call + 1) (some from_.eventId) kept ⟨first :: (rest ++ after), split⟩
        (by rw [whole, List.length_append, List.length_cons] at enough; omega) (by
          obtain ⟨more, grown⟩ := grown (call + 1)
          rw [history_before (indexed (call + 1)) grown inside (positive (call + 1)), before])
      refine ⟨(lastPage left (limits call)).events :: pages, ?_, ?_⟩
      · simp only [next, follow, Option.map_some]
      · rw [List.reverse_cons, List.flatten_append, flat, List.flatten_singleton,
          lastPage, page, whole]
    · -- The page holds all that is left.
      have all : left.drop (left.length - limits call) = left := by
        rw [Nat.sub_eq_zero_of_le (Nat.le_of_not_lt more), List.drop_zero]
      have stop : (lastPage left (limits call)).nextBefore = none := by
        rw [lastPage, all]
        simp
      refine ⟨[(lastPage left (limits call)).events], by simp only [stop], ?_⟩
      rw [lastPage, all]
      simp

end

/-! ## Forwards -/

/-- The events after a number are found by bisection. -/
theorem eventsAfter_split {channel : Channel} (indexed : channel.Indexed)
    {done rest : List LocalEvent} {after : Nat} (split : channel.events = done ++ rest)
    (reached : ∀ event ∈ done, event.seq ≤ after) (later : ∀ event ∈ rest, after < event.seq)
    (limit : Nat) :
    channel.eventsAfter after limit = (rest.take limit).map (deliveredIn channel.events) := by
  -- The probe of the search holds exactly at the places of the events already done.
  have passes : ∀ place, (channel.events[place]?).any (·.seq ≤ after) = true
    ↔ place < done.length := by
    intro place
    rw [split]
    rcases Nat.lt_or_ge place done.length with below | above
    · rw [List.getElem?_append_left below, List.getElem?_eq_getElem below]
      simpa [below] using reached _ (List.getElem_mem below)
    · rw [List.getElem?_append_right above]
      cases found : rest[place - done.length]? with
      | none => simp [above]
      | some event =>
        have := later event (List.mem_of_getElem? found)
        simp only [Option.any_some, decide_eq_true_eq]
        omega
  -- So the search stops at the first event of the rest.
  obtain ⟨-, upper, below, above⟩ := @Bisect.firstFrom_eq
    (fun place => (channel.events[place]?).any (·.seq ≤ after))
    (fun earlier place before passed =>
      (passes earlier).mpr (Nat.lt_of_le_of_lt before ((passes place).mp passed)))
    channel.events.length 0 channel.events.length (Nat.zero_le _) (Nat.le_refl _)
  have size : channel.events.length = done.length + rest.length := by rw [split, List.length_append]
  have place :
    Bisect.firstFrom (fun mid => (channel.events[mid]?).any (·.seq ≤ after)) channel.events.length 0
      channel.events.length = done.length := by
    apply Nat.le_antisymm
    · by_contra beyond
      have := (passes done.length).mp (below done.length (Nat.zero_le _) (by omega))
      omega
    · by_contra short
      have := above _ (Nat.le_refl _) (by omega)
      rw [(passes _).mpr (by omega)] at this
      cases this
  have dropped : channel.events.drop done.length = rest := by rw [split, List.drop_left]
  rw [Channel.eventsAfter, place, dropped]
  apply List.map_congr_left
  intro event inside
  -- The event that each delivered one follows is known from the whole log.
  rw [indexed.previous event (split ▸ List.mem_append_right _ (List.mem_of_mem_take inside))]
  rfl

/-- Following `next` from the beginning: what the calls so far gave, and where the next one starts.
-/
def followAfter (channels : Nat → Channel) (limits : Nat → Nat) :
    (calls : Nat) → List LocalEvent × Nat
  | 0 => ([], 0)
  | calls + 1 =>
    let (seen, next) := followAfter channels limits calls
    let page := (channels calls).eventsAfter next (limits calls)
    (seen ++ page, (page.getLast?.map (·.seq)).getD next)

section

variable {channels : Nat → Channel} {limits : Nat → Nat}

/-- A channel that only grows from one call to the next has grown since any earlier call. -/
private theorem grown_of_le
    (grows : ∀ call, ∃ more, (channels (call + 1)).events = (channels call).events ++ more)
    {earlier later : Nat} (before : earlier ≤ later) :
    ∃ more, (channels later).events = (channels earlier).events ++ more := by
  induction before with
  | refl => exact ⟨[], (List.append_nil _).symm⟩
  | step _ ih =>
    rename_i later _
    obtain ⟨more, grown⟩ := ih
    obtain ⟨last, grows⟩ := grows later
    exact ⟨more ++ last, by rw [grows, grown, List.append_assoc]⟩

/-- After any number of calls, an initial part of the events was given, and the next call goes on
right after it. Each call that finds more takes at least one event. -/
private theorem followAfter_next (indexed : ∀ call, (channels call).Indexed)
    (positive : ∀ call, 1 ≤ limits call)
    (grows : ∀ call, ∃ more, (channels (call + 1)).events = (channels call).events ++ more) :
    ∀ calls, ∃ done rest, (channels calls).events = done ++ rest
      ∧ (followAfter channels limits calls).1 = done.map (deliveredIn (channels calls).events)
      ∧ (followAfter channels limits calls).2 = (done.getLast?.map (·.seq)).getD 0
      ∧ ∀ earlier ≤ calls, min (calls - earlier)
        (channels earlier).events.length ≤ done.length := by
  intro calls
  induction calls with
  -- At first nothing is given, and the call starts before the first event.
  | zero =>
    refine ⟨[], (channels 0).events, rfl, rfl, rfl, ?_⟩
    intro earlier early
    rw [Nat.zero_sub, Nat.zero_min]
    exact Nat.zero_le _
  | succ calls ih =>
    obtain ⟨done, rest, split, seen, next, reached⟩ := ih
    obtain ⟨more, grown⟩ := grows calls
    have ascending := (indexed calls).ascending
    have before := (List.pairwise_append.mp (split ▸ ascending)).2.2
    -- Where the next call starts, the events given so far end.
    have upTo : ∀ event ∈ done, event.seq ≤ (done.getLast?.map (·.seq)).getD 0 := by
      intro event inside
      obtain ⟨last, atEnd⟩ : ∃ last, done.getLast? = some last :=
        ⟨_, List.getLast?_eq_some_getLast (List.ne_nil_of_mem inside)⟩
      obtain ⟨front, whole⟩ := List.getLast?_eq_some_iff.mp atEnd
      rw [atEnd, Option.map_some, Option.getD_some]
      have first := (List.pairwise_append.mp (split ▸ ascending)).1
      rw [whole] at first inside
      rcases List.mem_append.mp inside with earlier | same
      · exact Nat.le_of_lt
          ((List.pairwise_append.mp first).2.2 event earlier last List.mem_cons_self)
      · rw [List.mem_singleton.mp same]
    have later : ∀ event ∈ rest, (done.getLast?.map (·.seq)).getD 0 < event.seq := by
      intro event inside
      cases atEnd : done.getLast? with
      | none => exact (indexed calls).positive event (split ▸ List.mem_append_right _ inside)
      | some last => exact before last (List.mem_of_getLast? atEnd) event inside
    -- The next page are the first of the remaining events.
    have page := eventsAfter_split (indexed calls) split upTo later (limits calls)
    have whole : (channels (calls + 1)).events = (done ++ rest.take (limits calls))
      ++ (rest.drop (limits calls) ++ more) := by
      rw [grown, split, List.append_assoc, List.append_assoc,
        ← List.append_assoc (rest.take (limits calls)),
        List.take_append_drop]
    -- Events are given with the same content in a longer log.
    have kept : ∀ event ∈ (channels calls).events,
        deliveredIn (channels (calls + 1)).events event
          = deliveredIn (channels calls).events event := by
      intro event inside
      rw [grown]
      exact deliveredIn_append (grown ▸ (indexed (calls + 1)).ascending) inside
    refine ⟨done ++ rest.take (limits calls), rest.drop (limits calls) ++ more, whole, ?_, ?_, ?_⟩
    -- What has been given is what the pages had.
    · simp only [followAfter, seen, next, page]
      rw [← List.map_append]
      apply List.map_congr_left
      intro event inside
      apply (kept event _).symm
      rw [split]
      rcases List.mem_append.mp inside with inside | inside
      · exact List.mem_append_left _ inside
      · exact List.mem_append_right _ (List.mem_of_mem_take inside)
    -- The next call starts at the last one that was given.
    · simp only [followAfter, next, page, List.getLast?_append, List.getLast?_map]
      cases atEnd : (rest.take (limits calls)).getLast? with
      | none => simp
      | some last =>
        simp [seq_deliveredIn]
    -- Each call makes progress until all events are given.
    · intro earlier early
      have some_ := positive calls
      have size :
        (channels calls).events.length = done.length + rest.length := by
        rw [split, List.length_append]
      rw [List.length_append, List.length_take]
      rcases Nat.lt_or_ge calls earlier with now | earlier'
      · obtain rfl : earlier = calls + 1 := by omega
        rw [Nat.sub_self, Nat.zero_min]
        exact Nat.zero_le _
      · -- Either the call took an event, or everything there was had been given.
        obtain ⟨since, grownSince⟩ := grown_of_le grows earlier'
        have sizes := congrArg List.length grownSince
        rw [List.length_append] at sizes
        have := reached earlier earlier'
        omega

end

/-! ## Both ways -/

/-- The states that the calls find, when only writes come between them. -/
private theorem states_of_writes {ids : Nat → Text} (distinct : Function.Injective ids)
    {rooms : Nat → Room} (reachable : (rooms 0).Reachable ids)
    (writes : ∀ call, Relation.ReflTransGen (Room.Writes ids) (rooms call) (rooms (call + 1)))
    (call : Nat) :
    (rooms call).Sound ids
      ∧ ∃ more, (rooms (call + 1)).channel.events = (rooms call).channel.events ++ more := by
  -- Writes only append to the log.
  have grows : ∀ {room room' : Room}, Relation.ReflTransGen (Room.Writes ids) room room' →
      ∃ more, room'.channel.events = room.channel.events ++ more := by
    intro room room' writes
    induction writes with
    | refl => exact ⟨[], (List.append_nil _).symm⟩
    | tail _ last ih =>
      obtain ⟨more, grown⟩ := ih
      obtain ⟨last, added⟩ := last.grows
      exact ⟨more ++ last, by rw [added, grown, List.append_assoc]⟩
  -- And they lead from reachable rooms to reachable rooms.
  have reached : ∀ call, (rooms call).Reachable ids := by
    intro call
    induction call with
    | zero => exact reachable
    | succ call ih =>
      have kept : ∀ {room room' : Room}, room.Reachable ids →
        Relation.ReflTransGen (Room.Writes ids) room room' →
          room'.Reachable ids := by
        intro room room' first writes
        induction writes with
        | refl => exact first
        | tail _ last ih => exact ih.write last
      exact kept ih (writes call)
  exact ⟨(reached call).sound distinct, grows (writes call)⟩

/-- From every reachable state, with any limits of at least one and any writes between the calls:
following `nextBefore` from the newest page ends, and its pages, put back in order, are exactly what
the history showed at the first call; and following `next` from the beginning gives an initial part
of the events as subscribers get them, which holds every event of a state once enough calls were
made after it. -/
theorem paging_partitions {ids : Nat → Text} (distinct : Function.Injective ids)
    {rooms : Nat → Room} (reachable : (rooms 0).Reachable ids)
    (writes : ∀ call, Relation.ReflTransGen (Room.Writes ids) (rooms call) (rooms (call + 1)))
    {limits : Nat → Nat} (positive : ∀ call, 1 ≤ limits call) :
    (∀ fuel, (timeline (rooms 0).channel.events).length < fuel →
      ∃ pages, followBefore (fun call => (rooms call).channel) limits fuel 0 none = some pages
        ∧ pages.reverse.flatten = timeline (rooms 0).channel.events
        ∧ (∀ page ∈ pages, Ascending page)
        ∧ pages.Pairwise fun newer older => ∀ later ∈ newer, ∀ earlier ∈ older,
          earlier.seq < later.seq)
      ∧ ∀ calls, ∃ count,
        (followAfter (fun call => (rooms call).channel) limits calls).1
            = ((rooms calls).channel.events.take count).map
              (deliveredIn (rooms calls).channel.events)
          ∧ Ascending (followAfter (fun call => (rooms call).channel) limits calls).1
          ∧ ∀ earlier, earlier + (rooms earlier).channel.events.length ≤ calls →
            (rooms earlier).channel.events.length ≤ count := by
  -- At every call the room is sound, and its log has only grown.
  have states := states_of_writes distinct reachable writes
  have indexed : ∀ call, (rooms call).channel.Indexed := fun call => (states call).1.indexed
  have grows :
    ∀ call, ∃ more, (rooms (call + 1)).channel.events = (rooms call).channel.events ++ more :=
    fun call => (states call).2
  constructor
  -- Backwards: each page takes the newest of what is left of the first timeline.
  · intro fuel enough
    obtain ⟨pages, follow, flat⟩ := followBefore_left indexed positive
      (fun call => @grown_of_le (fun call => (rooms call).channel) grows _ _ (Nat.zero_le call))
      fuel 0 none (timeline (rooms 0).channel.events) ⟨[], (List.append_nil _).symm⟩ enough
      (history_newest (indexed 0) (positive 0))
    -- The pages are in the order of the timeline, because together they are the timeline.
    have ordered := ascending_timeline (indexed 0).ascending
    rw [← flat, Ascending, List.pairwise_flatten, List.pairwise_reverse] at ordered
    refine ⟨pages, follow, flat, fun page inside =>
      ordered.1 page (List.mem_reverse.mpr inside), ?_⟩
    apply ordered.2.imp
    intro newer older before later isLater earlier isEarlier
    exact before earlier isEarlier later isLater
  -- Forwards: what was delivered so far is an initial part of the log.
  · intro calls
    obtain ⟨done, rest, split, seen, -, reached⟩ := followAfter_next indexed positive grows calls
    refine ⟨done.length, ?_, ?_, ?_⟩
    · rw [seen, split, List.take_left]
    · rw [seen]
      have ordered := (List.pairwise_append.mp (split ▸ (indexed calls).ascending)).1
      apply List.pairwise_map.mpr
      apply ordered.imp
      intro earlier later before
      rw [seq_deliveredIn, seq_deliveredIn]
      exact before
    · intro earlier enough
      -- Every call delivers one more event at least, as long as there is one.
      have := reached earlier (by omega)
      omega

/-- Identifiers that differ in their length. -/
def countedIds (draw : Nat) : Text := List.replicate draw 65

/-- A room whose owner takes another name and then writes a message. -/
def renamedRoom : Room :=
  let created := createChannel countedIds (lit "!r:local") (lit "room")
    (lit "Ann") none 0 1 2 none none
  ((created.setOwnerChannelName countedIds (lit "Ann")
    (some (lit "Bea")) 3 none).1.append countedIds
    ⟨.message, localOwnerUserId, none,
      [(lit "msgtype", .string (lit "m.text")), (lit "body", .string (lit "hi"))]⟩ 4
    none).1

/-- The pages of a room whose owner was renamed. -/
theorem paging_partitions_renamed :
    ∃ pages, followBefore (fun _ => renamedRoom.channel) (fun _ => 1) 3 0 none = some pages
      ∧ pages.reverse.flatten.map (fun shown => (shown.seq, shown.type)) = [(3, .channelEvent),
        (4, .message)] := by
  -- Draws of different numbers have different lengths.
  have distinct : Function.Injective countedIds := by
    intro draw draw' same
    simpa [countedIds] using congrArg List.length same
  have reachable : renamedRoom.Reachable countedIds :=
    .write (.write (.created _ _ _ none 0 1 2 none none) (.setOwnerChannelName _ _ _ 3 none))
      (.append _ _ 4 none)
  -- Two events are shown, so three calls are enough.
  have shown : (timeline renamedRoom.channel.events).map (fun shown => (shown.seq, shown.type))
    = [(3, .channelEvent), (4, .message)] := by decide +kernel
  have size : (timeline renamedRoom.channel.events).length < 3 := by
    rw [← List.length_map fun shown => (shown.seq, shown.type), shown]
    decide
  obtain ⟨pages, follow, flat, -⟩ := (@paging_partitions _ distinct (fun _ => renamedRoom) reachable
    (fun _ => .refl) (fun _ => 1) (fun _ => Nat.le_refl 1)).1 3 size
  exact ⟨pages, follow, by rw [flat]; exact shown⟩

end Khala.Local
