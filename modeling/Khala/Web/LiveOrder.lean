import Khala.Web.LiveRuns

/-! When the first page reaches back to the summary, every update lists its events in their order.
-/

namespace Khala.LocalWeb

open Js Khala.Local

/-- Whether an update may list the event: it is on the page, or it is one that polls show. -/
def visible (log page : List LocalEvent) (origin : LocalEvent) : Bool :=
  origin.eventId ∈ page.map (·.eventId) || projects (fun _ => true) (deliveredIn log origin)

/-- The number of the last event of a page. -/
def lastOf (page : List LocalEvent) : Nat := (page.getLast?.map (·.seq)).getD 0

/-- The events that polls have still to return up to the end of the page. -/
def pending (log page : List LocalEvent) (after : Nat) : List LocalEvent :=
  log.filter fun origin => after < origin.seq ∧ origin.seq ≤ lastOf page

/-- Those of them that come new into a window. -/
def missing (log page origins : List LocalEvent) (after : Nat) : List LocalEvent :=
  (pending log page after).filter fun origin =>
    inWindow (deliveredIn log origin) && origin.eventId ∉ origins.map (·.eventId)

/-- Whether the first page reaches back to the summary: every message, channel event and rename that
landed in between is on it, and up to its end landed at most two hundred events, or at most a
hundred and fifty other changes of members. -/
def Reaches (room : Room) (sub : Subscription) : Prop :=
  let page := (room.channel.history none 50).events
  (∀ origin ∈ room.channel.events, sub.after < origin.seq → projects (fun _ => true)
    (deliveredIn room.channel.events origin) = true →
      origin.eventId ∈ page.map (·.eventId))
    ∧ ((pending room.channel.events page sub.after).length ≤ 200
      ∨ (missing room.channel.events page (pageOrigins room.channel.events) sub.after).length ≤ 150)

/-- The window is in order, and what is still to come up to the end of the page finds room in it. -/
structure Ordered (log page origins : List LocalEvent) (after : Nat) : Prop where
  sorted : Ascending (origins.filter (visible log page))
  bound : ∀ origin ∈ origins, origin.seq ≤ max after (lastOf page)
  ahead : ∀ origin ∈ pending log page after, visible log page origin = true →
    origin.eventId ∈ origins.map (·.eventId)
  fits : (pending log page after).length ≤ 200
    ∨ origins.length + (missing log page origins after).length ≤ 200

/-- A log is what is up to a number and what is past it. -/
theorem split_ascending {log : List LocalEvent} (ascending : Ascending log) (n : Nat) :
    log = log.filter (·.seq ≤ n) ++ log.filter (n < ·.seq) := by
  -- The induction is on the log, up to the first event past the bound.
  induction log with
  | nil => rfl
  | cons event rest ih =>
    obtain ⟨first, ascending'⟩ := List.pairwise_cons.mp ascending
    by_cases reached : event.seq ≤ n
    · rw [List.filter_cons_of_pos (by simpa using reached),
        List.filter_cons_of_neg (by simpa using reached), List.cons_append,
        ← ih ascending']
    -- The events after this one are past it too.
    · have later : ∀ other ∈ rest, n < other.seq := fun other inside => by
        have := first other inside
        omega
      rw [List.filter_cons_of_neg (by simpa using reached),
        List.filter_cons_of_pos (by simpa using reached),
        List.filter_eq_nil_iff.mpr fun other inside => by simpa using later other inside,
        List.filter_eq_self.mpr
          fun other inside => by simpa using later other inside, List.nil_append]

section

variable {log page origins : List LocalEvent} {after : Nat}

/-- What is pending is past the poll, and no later than the page. -/
theorem mem_pending {origin : LocalEvent} :
    origin ∈ pending log page after ↔ origin ∈ log ∧ after < origin.seq
      ∧ origin.seq ≤ lastOf page := by
  simp [pending]

/-- What is pending comes first among what polls return. -/
theorem pending_eq :
    pending log page after = (log.filter (after < ·.seq)).filter (·.seq ≤ lastOf page) := by
  rw [pending, List.filter_filter]
  exact List.filter_congr fun origin _ => by simp [Bool.and_comm]

/-- Few pending events are all returned by the next poll. -/
theorem pending_polled (ascending : Ascending log) (few : (pending log page after).length ≤ 200)
    {origin : LocalEvent} (inside : origin ∈ pending log page after) :
    origin ∈ polledOrigins log after := by
  have ordered : Ascending (log.filter (after < ·.seq)) := ascending.filter _
  have split := split_ascending ordered (lastOf page)
  rw [← pending_eq] at split
  rw [polledOrigins, split, List.take_append, List.take_of_length_le few]
  exact List.mem_append_left _ inside

/-- While something is pending after a poll, the poll returned only what was pending before. -/
theorem polled_pending {after' : Nat}
    (all : ∀ origin ∈ polledOrigins log after, origin.seq ≤ after')
    (before : after' < lastOf page) :
    (polledOrigins log after).Sublist (pending log page after) := by
  have own : (polledOrigins log after).filter (·.seq ≤ lastOf page) = polledOrigins log after :=
    List.filter_eq_self.mpr fun origin inside => by
      have := all origin inside
      simp only [decide_eq_true_eq]
      omega
  rw [pending_eq, ← own]
  exact (List.take_sublist _ _).filter _

/-- A poll either returns all that was pending, or it leaves room for the rest of it. -/
theorem afterPoll_pending (ascending : Ascending log) (ordered : Ordered log page origins after)
    {after' : Nat} (le : after ≤ after')
    (all : ∀ origin ∈ polledOrigins log after, origin.seq ≤ after')
    (some_ : pending log page after' ≠ []) :
    afterPoll log after origins = origins ++ newOrigins log after origins
      ∧ (origins ++ newOrigins log after origins).length
        + (missing log page (origins ++ newOrigins log after origins) after').length ≤ 200 := by
  obtain ⟨origin, inside⟩ := List.exists_mem_of_ne_nil _ some_
  obtain ⟨inLog, later, within⟩ := mem_pending.mp inside
  have sub := @polled_pending log page after after' all (by omega)
  have notFew : ¬ (pending log page after).length ≤ 200 := fun few => by
    have := all origin (pending_polled ascending few (mem_pending.mpr ⟨inLog, by omega, within⟩))
    omega
  have fits := ordered.fits.resolve_left notFew
  -- What was missing is what the poll brings and what is missing afterwards.
  have parts : missing log page origins after
      = (missing log page origins after).filter (·.seq ≤ after')
        ++ (missing log page origins after).filter (after' < ·.seq) :=
    split_ascending ((ascending.filter _).filter _) after'
  have brought :
    (newOrigins log after origins).Sublist
    ((missing log page origins after).filter (·.seq ≤ after')) := by
    have own : (newOrigins log after origins).filter (·.seq ≤ after')
      = newOrigins log after origins :=
      List.filter_eq_self.mpr fun other there =>
        decide_eq_true (all other (List.mem_filter.mp (List.mem_filter.mp there).1).1)
    have both : newOrigins log after origins = (polledOrigins log after).filter fun other =>
        inWindow (deliveredIn log other) && other.eventId ∉ origins.map (·.eventId) := by
      rw [newOrigins, takenOrigins, List.filter_filter]
      exact List.filter_congr fun other _ => by rw [Bool.and_comm]
    rw [← own, both]
    exact (sub.filter _).filter _
  have left : (missing log page (origins ++ newOrigins log after origins) after').Sublist
      ((missing log page origins after).filter (after' < ·.seq)) := by
    have fewer : (missing log page (origins ++ newOrigins log after origins) after')
        = ((missing log page origins after).filter (after' < ·.seq)).filter fun other =>
          other.eventId ∉ (newOrigins log after origins).map (·.eventId) := by
      simp only [missing, pending, List.filter_filter]
      refine List.filter_congr fun other _ => Bool.eq_iff_iff.mpr ?_
      simp only [List.map_append, List.mem_append, not_or, Bool.and_eq_true, decide_eq_true_eq]
      constructor
      · rintro ⟨⟨taken, notHeld, notNew⟩, later', within'⟩
        exact ⟨notNew, later', ⟨taken, notHeld⟩, by omega, within'⟩
      · rintro ⟨notNew, later', ⟨taken, notHeld⟩, -, within'⟩
        exact ⟨⟨taken, notHeld, notNew⟩, later', within'⟩
    rw [fewer]
    exact List.filter_sublist
  have size := congrArg List.length parts
  rw [List.length_append] at size
  have := brought.length_le
  have := left.length_le
  have few : (origins ++ newOrigins log after origins).length ≤ 200 := by
    rw [List.length_append]
    omega
  refine ⟨?_, ?_⟩
  · rw [afterPoll, Nat.sub_eq_zero_of_le few, List.drop_zero]
  · rw [List.length_append] at few ⊢
    omega

/-- A poll puts new events behind all that is visible in the window. -/
theorem Ordered.afterPoll (ascending : Ascending log) (ordered : Ordered log page origins after)
    {after' : Nat} (le : after ≤ after')
    (all : ∀ origin ∈ polledOrigins log after, origin.seq ≤ after') :
    Ordered log page (afterPoll log after origins) after' := by
  have within :
    (LocalWeb.afterPoll log after origins).Sublist (origins ++ newOrigins log after origins) :=
    List.drop_sublist _ _
  have new : ∀ origin ∈ newOrigins log after origins, origin ∈ polledOrigins log after
    ∧ origin.eventId ∉ origins.map (·.eventId) := by
    intro origin inside
    obtain ⟨taken, absent⟩ := List.mem_filter.mp inside
    exact ⟨(List.mem_filter.mp taken).1, of_decide_eq_true absent⟩
  refine ⟨?_, fun origin inside => ?_, fun origin inside isVisible => ?_, ?_⟩
  · refine List.Pairwise.sublist (within.filter _) ?_
    rw [List.filter_append]
    refine List.pairwise_append.mpr ⟨ordered.sorted,
      (ascending.sublist (List.filter_sublist.trans (takenOrigins_sublist log after))).filter _, ?_⟩
    intro held isHeld added isAdded
    obtain ⟨inside, -⟩ := List.mem_filter.mp isHeld
    obtain ⟨isNew, isVisible⟩ := List.mem_filter.mp isAdded
    obtain ⟨polled, absent⟩ := new added isNew
    obtain ⟨inLog, later⟩ := mem_polledOrigins polled
    -- Up to the end of the page everything visible is in the window already.
    have beyond : lastOf page < added.seq := by
      by_contra within
      exact absent (ordered.ahead added (mem_pending.mpr ⟨inLog, later, by omega⟩) isVisible)
    have := ordered.bound held inside
    omega
  · rcases List.mem_append.mp (within.subset inside) with held | isNew
    · have := ordered.bound origin held
      omega
    · have := all origin (new origin isNew).1
      omega
  · obtain ⟨kept, -⟩ := afterPoll_pending ascending ordered le all (List.ne_nil_of_mem inside)
    obtain ⟨inLog, later, beforeEnd⟩ := mem_pending.mp inside
    have held := ordered.ahead origin (mem_pending.mpr ⟨inLog, by omega, beforeEnd⟩) isVisible
    rw [kept, List.map_append]
    exact List.mem_append_left _ held
  · by_cases some_ : pending log page after' = []
    · exact .inl (by rw [some_]; exact Nat.zero_le _)
    · obtain ⟨kept, fits⟩ := afterPoll_pending ascending ordered le all some_
      exact .inr (kept ▸ fits)

/-- What is written past the page leaves the window in order. -/
theorem Ordered.grow (ordered : Ordered log page origins after)
    (inside : ∀ origin ∈ origins, origin ∈ log) {more : List LocalEvent}
    (ascending : Ascending (log ++ more)) (ends : ∀ event ∈ more, lastOf page < event.seq) :
    Ordered (log ++ more) page origins after := by
  -- What the log gains is past the end of the page.
  have none_ : more.filter (fun origin => after < origin.seq ∧ origin.seq ≤ lastOf page) = [] :=
    List.filter_eq_nil_iff.mpr fun event isNew => by
      have := ends event isNew
      simp only [decide_eq_true_eq]
      omega
  have pending_ : pending (log ++ more) page after = pending log page after := by
    rw [pending, List.filter_append, none_, List.append_nil]
    rfl
  -- Of the events before, each is delivered and visible as it was.
  have delivered : ∀ origin ∈ log, deliveredIn (log ++ more) origin = deliveredIn log origin :=
    fun origin inLog =>
    deliveredIn_append ascending inLog
  have visible_ : ∀ origin ∈ log, visible (log ++ more) page origin = visible log page origin :=
    fun origin inLog => by
    rw [visible, visible, delivered origin inLog]
  refine ⟨?_, ordered.bound, fun origin isPending isVisible => ?_, ?_⟩
  -- So the three parts are about the log as it was.
  · rw [List.filter_congr fun origin there => visible_ origin (inside origin there)]
    exact ordered.sorted
  · rw [pending_] at isPending
    exact ordered.ahead origin isPending (visible_ origin (mem_pending.mp isPending).1 ▸ isVisible)
  · have missing_ : missing (log ++ more) page origins after = missing log page origins after := by
      rw [missing, missing, pending_]
      exact List.filter_congr
        fun origin isPending => by rw [delivered origin (mem_pending.mp isPending).1]
    rw [pending_, missing_]
    exact ordered.fits

/-- The window lists its events in the order of the log. -/
theorem Ordered.listing {window : Map Text LocalEvent} (tracks : Tracks log page origins window)
    (ordered : Ordered log page origins after) (reads : LocalEvent → Bool) :
    Ascending (listing reads (window.entries.map Prod.snd)) := by
  -- The window is read along the events that its entries stand for.
  have general : ∀ {origins : List LocalEvent} {entries : List (Text × LocalEvent)},
    List.Forall₂ (StandsFor log page) origins entries →
      Ascending (origins.filter (visible log page)) →
      Ascending (LocalWeb.listing reads (entries.map Prod.snd))
        ∧ ∀ event ∈ LocalWeb.listing reads (entries.map Prod.snd),
          ∃ origin ∈ origins.filter (visible log page), origin.seq = event.seq := by
    intro origins entries each
    induction each with
    | nil => exact fun _ => ⟨.nil, fun _ none_ => absurd none_ List.not_mem_nil⟩
    | @cons origin entry others rest own _ ih =>
      intro sorted
      have sorted' : Ascending (others.filter (visible log page)) :=
        List.Pairwise.sublist ((List.sublist_cons_self _ _).filter _) sorted
      obtain ⟨listed, origins_⟩ := ih sorted'
      -- An entry that is shown stands for an event that is visible.
      by_cases shows : projects reads entry.2 = true
      · have isVisible : visible log page origin = true := by
          rw [visible, Bool.or_eq_true]
          rcases own.given with onPage | delivered
          -- It is on the page or has been delivered.
          · exact .inl (decide_eq_true (own.eventId ▸ List.mem_map_of_mem onPage))
          · refine .inr ?_
            rw [← delivered]
            unfold projects at shows ⊢
            split <;> simp_all
        rw [List.filter_cons_of_pos isVisible] at sorted ⊢
        have head : LocalWeb.listing reads ((entry :: rest).map Prod.snd)
          = entry.2 :: LocalWeb.listing reads (rest.map Prod.snd) :=
          List.filter_cons_of_pos shows
        rw [head]
        -- It comes before the others, as its event does.
        refine ⟨List.pairwise_cons.mpr ⟨fun event inside => ?_, listed⟩,
          List.forall_mem_cons.mpr ⟨⟨origin, List.mem_cons_self, own.seq.symm⟩, ?_⟩⟩
        · obtain ⟨other, there, same⟩ := origins_ event inside
          rw [own.seq, ← same]
          exact (List.pairwise_cons.mp sorted).1 other there
        · intro event inside
          obtain ⟨other, there, same⟩ := origins_ event inside
          exact ⟨other, List.mem_cons_of_mem _ there, same⟩
      -- An entry that is not shown leaves the list as it is.
      · have head : LocalWeb.listing reads ((entry :: rest).map Prod.snd) = LocalWeb.listing reads
          (rest.map Prod.snd) :=
          List.filter_cons_of_neg shows
        rw [head]
        refine ⟨listed, fun event inside => ?_⟩
        obtain ⟨other, there, same⟩ := origins_ event inside
        exact ⟨other, ((List.sublist_cons_self _ _).filter _).subset there, same⟩
  exact (general tracks.entries ordered.sorted).1

end

/-! ## Runs -/

/-- The window is in order, and so is all that was published. -/
structure InOrder (reads : LocalEvent → Bool) (room : Room) (sub : Subscription)
    (origins : List LocalEvent) : Prop where
  tracks : Tracks room.channel.events (sub.page.getD []) origins sub.window
  ordered : Ordered room.channel.events (sub.page.getD []) origins sub.after
  ends : lastOf (sub.page.getD []) ≤ room.channel.lastSeq
  updates : ∀ update ∈ sub.updates, Ascending (listing reads update)

section

variable {reads : LocalEvent → Bool} {room : Room} {sub : Subscription} {origins : List LocalEvent}

/-- An empty window is in order. -/
theorem ordered_nil (log : List LocalEvent) (after : Nat) : Ordered log [] [] after := by
  have none_ : pending log [] after = [] := List.filter_eq_nil_iff.mpr fun origin _ => by
    intro between
    obtain ⟨later, early⟩ := of_decide_eq_true between
    have : origin.seq ≤ 0 := early
    omega
  refine ⟨.nil, fun _ nothing => absurd nothing List.not_mem_nil, fun origin inside =>
    ?_, .inl (by rw [none_]; exact Nat.zero_le _)⟩
  rw [none_] at inside
  cases inside

/-- At the start the window is in order. -/
theorem inOrder_start (room : Room) : InOrder reads room .start [] where
  tracks := ⟨fun _ none_ => absurd none_ List.not_mem_nil, .nil⟩
  ordered := ordered_nil _ _
  ends := Nat.zero_le _
  updates := fun _ none_ => absurd none_ List.not_mem_nil

/-- Publishing leaves the window in order. -/
theorem InOrder.publish (inOrder : InOrder reads room sub origins) :
    InOrder reads room sub.publish origins where
  tracks := inOrder.tracks
  ordered := inOrder.ordered
  ends := inOrder.ends
  updates := by
    intro update inside
    rcases List.mem_append.mp inside with earlier | own
    · exact inOrder.updates update earlier
    · rw [List.mem_singleton.mp own]
      exact inOrder.ordered.listing inOrder.tracks reads

/-- The summary leaves the window in order. -/
theorem InOrder.takeSummary (inOrder : InOrder reads room sub origins) (sound : Sound room sub)
    (phase : sub.phase = .summary) :
    InOrder reads room (sub.takeSummary room.channel.lastSeq) [] := by
  obtain ⟨window, noPage, -⟩ := sound.fresh (.inl phase)
  refine ⟨⟨fun _ none_ => absurd none_ List.not_mem_nil, ?_⟩, ?_, inOrder.ends, inOrder.updates⟩
  · rw [Subscription.takeSummary, window]
    exact .nil
  · simp only [Subscription.takeSummary, noPage]
    exact ordered_nil _ _

/-- A write leaves the window in order. -/
theorem InOrder.write (inOrder : InOrder reads room sub origins) {room' : Room}
    (indexed : room'.channel.Indexed) {more : List LocalEvent}
    (grown : room'.channel.events = room.channel.events ++ more) :
    InOrder reads room' sub origins := by
  have ascending : Ascending (room.channel.events ++ more) := grown ▸ indexed.ascending
  obtain ⟨later, lastSeq⟩ := lastSeq_grown indexed grown
  refine ⟨grown ▸ inOrder.tracks.grow ascending, ?_, Nat.le_trans inOrder.ends lastSeq,
    inOrder.updates⟩
  rw [grown]
  exact inOrder.ordered.grow inOrder.tracks.inside ascending fun event inside =>
    Nat.lt_of_le_of_lt inOrder.ends (later event inside)

/-- A poll leaves the window in order. -/
theorem InOrder.takePoll (inOrder : InOrder reads room sub origins)
    (indexed : room.channel.Indexed) :
    InOrder reads room (sub.takePoll (room.channel.eventsAfter sub.after 200))
      (afterPoll room.channel.events sub.after origins) := by
  obtain ⟨-, page', updates', -⟩ := receive_keeps sub (room.channel.eventsAfter sub.after 200)
  obtain ⟨le, all, -⟩ := foldl_max_spec (room.channel.eventsAfter sub.after 200) sub.after
  -- What was polled has been received up to its own place.
  have polled : ∀ origin ∈ polledOrigins room.channel.events sub.after,
      origin.seq ≤ (sub.receive (room.channel.eventsAfter sub.after 200)).after := by
    intro origin inside
    rw [← seq_deliveredIn room.channel.events]
    exact all _ (eventsAfter_origins indexed sub.after ▸ List.mem_map_of_mem inside)
  -- The window, the order, the end and the updates are those after the poll.
  have received : InOrder reads room (sub.receive (room.channel.eventsAfter sub.after 200))
    (afterPoll room.channel.events sub.after origins) := by
    refine ⟨?_, ?_, ?_, ?_⟩
    · rw [page']
      exact tracks_takePoll indexed inOrder.tracks
    · rw [page']
      exact inOrder.ordered.afterPoll indexed.ascending le polled
    · rw [page']
      exact inOrder.ends
    · rw [updates']
      exact inOrder.updates
  unfold Subscription.takePoll
  -- It publishes or it does not, and both keep this.
  split
  · exact received
  · exact received.publish

/-- The numbers of a page go up to its last one. -/
theorem le_lastOf {page : List LocalEvent} (ascending : Ascending page) {event : LocalEvent}
    (inside : event ∈ page) : event.seq ≤ lastOf page := by
  obtain ⟨last, isLast⟩ : ∃ last, page.getLast? = some last :=
    ⟨_, List.getLast?_eq_some_getLast (List.ne_nil_of_mem inside)⟩
  obtain ⟨front, rfl⟩ := List.getLast?_eq_some_iff.mp isLast
  rw [lastOf, isLast, Option.map_some, Option.getD_some]
  rcases List.mem_append.mp inside with before | own
  · exact Nat.le_of_lt
      ((List.pairwise_append.mp ascending).2.2 event before last List.mem_cons_self)
  · rw [List.mem_singleton.mp own]

/-- A history that reaches the summary leaves the window in order. -/
theorem InOrder.takeHistory (inOrder : InOrder reads room sub origins) (sound : Sound room sub)
    (indexed : room.channel.Indexed) (phase : sub.phase = .history) (reaches : Reaches room sub) :
    InOrder reads room (sub.takeHistory (room.channel.history none 50).events)
      (pageOrigins room.channel.events) := by
  obtain ⟨window, -, -⟩ := sound.fresh (.inr phase)
  obtain ⟨landed, fits⟩ := reaches
  -- The events of the page are those that its entries stand for.
  have events := history_events indexed
  have sub_ : (pageOrigins room.channel.events).Sublist room.channel.events :=
    (List.drop_sublist _ _).trans List.filter_sublist
  have distinct : ((pageOrigins room.channel.events).map (·.eventId)).Nodup :=
    (nodup_ids indexed).sublist (sub_.map _)
  -- The window starts empty, so it holds the page and nothing else.
  have tracks : Tracks room.channel.events (room.channel.history none 50).events
    (pageOrigins room.channel.events)
      (((room.channel.history none 50).events).foldl store sub.window) := by
    have added := tracks_takeHistory indexed
    rw [foldl_adding distinct] at added
    rw [window]
    simpa using added
  -- The page is the end of the timeline.
  have ascending : Ascending (room.channel.history none 50).events := by
    rw [history_newest indexed (by decide)]
    exact (ascending_timeline indexed.ascending).sublist (List.drop_sublist _ _)
  have shown : ∀ origin ∈ pageOrigins room.channel.events,
    shownForm room.channel.events origin ∈ (room.channel.history none 50).events :=
    fun origin inside => events ▸ List.mem_map_of_mem inside
  -- An identifier on the page is that of an event it stands for.
  have onPage : ∀ id ∈ ((room.channel.history none 50).events).map (·.eventId),
    id ∈ (pageOrigins room.channel.events).map (·.eventId) := by
    rw [events, List.map_map]
    intro id inside
    obtain ⟨origin, isOrigin, rfl⟩ := List.mem_map.mp inside
    rw [Function.comp_apply, (mem_pageOrigins isOrigin).2.1]
    exact List.mem_map_of_mem isOrigin
  refine InOrder.publish ⟨tracks, ⟨(indexed.ascending.sublist sub_).filter _, fun origin inside =>
    ?_, fun origin inside isVisible => ?_, ?_⟩, ?_,
    inOrder.updates⟩
  -- Each event of the page comes before its end.
  · have := le_lastOf ascending (shown origin inside)
    rw [(mem_pageOrigins inside).2.2] at this
    exact Nat.le_trans this (Nat.le_max_right _ _)
  -- A pending event that is visible is on the page already.
  · obtain ⟨inLog, later, -⟩ := mem_pending.mp inside
    refine onPage _ ?_
    rcases (Bool.or_eq_true _ _).mp isVisible with there | projected
    · exact of_decide_eq_true there
    · exact landed origin inLog later projected
  -- The page has at most fifty events.
  · have few : (pageOrigins room.channel.events).length ≤ 50 := by
      rw [← List.length_map (shownForm room.channel.events), ← events,
        history_newest indexed (by decide)]
      simp only [lastPage, List.length_drop]
      omega
    refine fits.imp_right fun other => ?_
    exact Nat.add_le_add few other
  · change lastOf (room.channel.history none 50).events ≤ _
    -- An empty page ends nowhere.
    cases last : (room.channel.history none 50).events.getLast? with
    | none =>
      rw [lastOf, last]
      exact Nat.zero_le _
    | some event =>
      rw [lastOf, last, Option.map_some, Option.getD_some]
      obtain ⟨origin, isOrigin, rfl⟩ := List.mem_map.mp (events ▸ List.mem_of_getLast? last)
      rw [(mem_pageOrigins isOrigin).2.2]
      exact indexed.le_lastSeq (mem_pageOrigins isOrigin).1

/-- A failure leaves the window in order. -/
theorem InOrder.fail (inOrder : InOrder reads room sub origins) :
    InOrder reads room sub.fail origins where
  tracks := inOrder.tracks
  ordered := inOrder.ordered
  ends := inOrder.ends
  updates := inOrder.updates

/-- Stopping leaves the window in order. -/
theorem InOrder.stop (inOrder : InOrder reads room sub origins) :
    InOrder reads room sub.stop origins where
  tracks := inOrder.tracks
  ordered := inOrder.ordered
  ends := inOrder.ends
  updates := inOrder.publish.updates

end

section

variable {ids : Nat → Text} {room room' : Room} {sub sub' : Subscription}

/-- What holds in any run of the room and the subscription. -/
theorem Follows.sound (distinct : Function.Injective ids) (reachable : room.Reachable ids)
    {met : Room → Subscription → Prop} (run : Follows ids met (room, .start) (room', sub')) :
    room'.Reachable ids ∧ Sound room' sub' := by
  -- The induction takes the pairs as they are, so they are named first.
  generalize reached : (room', sub') = state at run
  induction run generalizing room' sub' with
  | refl =>
    obtain ⟨rfl, rfl⟩ := Prod.mk.inj reached
    exact ⟨reachable, sound_start _⟩
  | @tail before _ _ step ih =>
    obtain ⟨inRun, sound⟩ := ih (Prod.eta before)
    have indexed := (inRun.sound distinct).indexed
    cases step with
    | write writes =>
      obtain ⟨rfl, rfl⟩ := Prod.mk.inj reached
      obtain ⟨more, grown⟩ := writes.grows
      exact ⟨inRun.write writes, sound.write ((inRun.write writes).sound distinct).indexed grown⟩
    | fail _ =>
      obtain ⟨rfl, rfl⟩ := Prod.mk.inj reached
      exact ⟨inRun, sound.fail⟩
    | summary phase =>
      obtain ⟨rfl, rfl⟩ := Prod.mk.inj reached
      exact ⟨inRun, sound.takeSummary phase⟩
    | history phase _ =>
      obtain ⟨rfl, rfl⟩ := Prod.mk.inj reached
      exact ⟨inRun, sound.takeHistory indexed phase⟩
    | poll phase =>
      obtain ⟨rfl, rfl⟩ := Prod.mk.inj reached
      exact ⟨inRun, sound.takePoll indexed phase⟩
    | stop _ =>
      obtain ⟨rfl, rfl⟩ := Prod.mk.inj reached
      exact ⟨inRun, sound.stop⟩

/-- When each first page reaches back to its summary, all that is published is in order. -/
theorem Follows.inOrder (distinct : Function.Injective ids) (reachable : room.Reachable ids)
    (run : Follows ids Reaches (room, .start) (room', sub')) (reads : LocalEvent → Bool) :
    ∃ origins, InOrder reads room' sub' origins := by
  generalize reached : (room', sub') = state at run
  -- The induction is on the run, and each step has a lemma of its own.
  induction run generalizing room' sub' with
  | refl =>
    obtain ⟨rfl, rfl⟩ := Prod.mk.inj reached
    exact ⟨[], inOrder_start _⟩
  | @tail before _ earlier step ih =>
    obtain ⟨origins, inOrder⟩ := ih (Prod.eta before)
    -- What is known of the subscription and the room before the step carries over.
    obtain ⟨inRun, sound⟩ := Follows.sound distinct reachable earlier
    have indexed := (inRun.sound distinct).indexed
    cases step with
    | write writes =>
      obtain ⟨rfl, rfl⟩ := Prod.mk.inj reached
      obtain ⟨more, grown⟩ := writes.grows
      exact ⟨origins, inOrder.write ((inRun.write writes).sound distinct).indexed grown⟩
    | fail _ =>
      obtain ⟨rfl, rfl⟩ := Prod.mk.inj reached
      exact ⟨origins, inOrder.fail⟩
    | summary phase =>
      obtain ⟨rfl, rfl⟩ := Prod.mk.inj reached
      exact ⟨[], inOrder.takeSummary sound phase⟩
    | history phase reaches =>
      obtain ⟨rfl, rfl⟩ := Prod.mk.inj reached
      exact ⟨_, inOrder.takeHistory sound indexed phase reaches⟩
    | poll _ =>
      obtain ⟨rfl, rfl⟩ := Prod.mk.inj reached
      exact ⟨_, inOrder.takePoll indexed⟩
    | stop _ =>
      obtain ⟨rfl, rfl⟩ := Prod.mk.inj reached
      exact ⟨origins, inOrder.stop⟩

end

/-- A step under a condition is one under a weaker one. -/
theorem Step.mono {ids : Nat → Text} {met met' : Room → Subscription → Prop}
    (enough : ∀ room sub, met room sub → met' room sub) {state state' : Room × Subscription}
    (step : Step ids met state state') : Step ids met' state state' := by
  cases step with
  | write writes => exact .write writes
  | fail going => exact .fail going
  | summary phase => exact .summary phase
  | history phase asks => exact .history phase (enough _ _ asks)
  | poll phase => exact .poll phase
  | stop going => exact .stop going

/-- Whatever is written meanwhile and whatever requests fail: no update lists an event twice, every
message, channel event or change of a member that a poll returns is in an update, and so is all that
the history shows between the oldest event of the first page and the last event of a poll. When each
first page reaches back to the summary before it, every update lists its events in increasing order.
-/
theorem live_view {ids : Nat → Text} (distinct : Function.Injective ids) {room room' : Room}
    (reachable : room.Reachable ids) {met : Room → Subscription → Prop} {sub : Subscription}
    (run : Follows ids met (room, .start) (room', sub)) :
    (∀ update ∈ sub.updates, (update.map (·.eventId)).Nodup)
      ∧ (∀ event ∈ sub.polled, inWindow event = true → Published sub event.eventId)
      ∧ (∀ page, sub.page = some page → ∀ shown ∈ timeline room'.channel.events,
        (∀ oldest ∈ page.head?, oldest.seq ≤ shown.seq) →
        shown.seq ≤ sub.after → Published sub shown.eventId)
      ∧ ((∀ room sub, met room sub → Reaches room sub) →
        ∀ (reads : LocalEvent → Bool), ∀ update ∈ sub.updates,
          Ascending (listing reads update)) := by
  obtain ⟨-, sound⟩ := Follows.sound distinct reachable run
  refine ⟨sound.once, sound.polled, sound.noHole, fun enough reads => ?_⟩
  have asked : Follows ids Reaches (room, .start) (room', sub) := run.lift id fun _ _ =>
    Step.mono enough
  obtain ⟨_, inOrder⟩ := Follows.inOrder distinct reachable asked reads
  exact inOrder.updates

/-- A room to which messages were posted one after another. -/
def posted : Nat → Room
  | 0 => createChannel countedIds (lit "!r:local") (lit "room") (lit "Ann") none 0 1 2 none none
  | count + 1 => ((posted count).append countedIds
      ⟨.message, localOwnerUserId, none, [(lit "msgtype", .string (lit "m.text")),
        (lit "body", .string (lit "hi"))]⟩ (count + 3) none).1

/-- A subscription whose summary comes before the messages of a room and whose other answers come
after them. -/
def followed (count : Nat) : Subscription :=
  let paged :=
    (Subscription.start.takeSummary (posted 0).channel.lastSeq).takeHistory
    ((posted count).channel.history none 50).events
  paged.takePoll ((posted count).channel.eventsAfter paged.after 200)

/-- The room of posts is reachable. -/
theorem reachable_posted : (posted 0).Reachable countedIds := .created _ _ _ none 0 1 2 none none

/-- The subscription follows the room of posts. -/
theorem follows_posted {met : Room → Subscription → Prop} (count : Nat)
    (asks : met (posted count) (Subscription.start.takeSummary (posted 0).channel.lastSeq)) :
    Follows countedIds met (posted 0, .start) (posted count, followed count) := by
  have summary : Follows countedIds met (posted 0, .start)
    (posted 0, Subscription.start.takeSummary (posted 0).channel.lastSeq) :=
    .single (.summary rfl)
  have waits : Follows countedIds met (posted 0, .start)
    (posted count, Subscription.start.takeSummary (posted 0).channel.lastSeq) := by
    clear asks
    induction count with
    | zero => exact summary
    | succ count ih => exact ih.tail (.write (.append _ _ _ none))
  exact (waits.tail (.history rfl asks)).tail (.poll rfl)

/-- Two posts are shown once each, in order. -/
theorem live_view_posted : ∃ sub, Follows countedIds Reaches (posted 0, .start) (posted 2, sub)
    ∧ sub.updates.map (fun update => (listing (fun _ => true) update).map (·.seq))
      = [[3, 4], [3, 4]]
    ∧ (∀ update ∈ sub.updates, (update.map (·.eventId)).Nodup)
    ∧ (∀ event ∈ sub.polled, inWindow event = true → Published sub event.eventId)
    ∧ ∀ update ∈ sub.updates, Ascending (listing (fun _ => true) update) := by
  have distinct : Function.Injective countedIds := by
    intro draw draw' same
    simpa [countedIds] using congrArg List.length same
  have reaches :
    Reaches (posted 2) (Subscription.start.takeSummary (posted 0).channel.lastSeq) := by
    refine ⟨?_, .inl ?_⟩
    · decide +kernel
    · decide +kernel
  have run := follows_posted 2 reaches
  obtain ⟨once, polled, -, ordered⟩ := live_view distinct reachable_posted run
  exact ⟨_, run, by decide +kernel, once, polled, ordered (fun _ _ asks => asks) _⟩

/-- When more messages come between the summary and the first page than the page holds, the poll
puts them behind it. -/
theorem older_message_last :
    ∃ room sub, room.Reachable countedIds ∧ Follows countedIds (fun _ _ => True) (room, .start)
      (posted 51, sub)
    ∧ ∃ update ∈ sub.updates, (listing (fun _ => true) update).map (·.seq) = (List.range 50).map
      (· + 4) ++ [3]
      ∧ ¬ Ascending (listing (fun _ => true) update) := by
  have published : ∃ update ∈ (followed 51).updates,
      (listing (fun _ => true) update).map (·.seq) = (List.range 50).map (· + 4)
        ++ [3] := by decide +kernel
  obtain ⟨update, inside, listed⟩ := published
  refine ⟨posted 0, followed 51, reachable_posted, follows_posted 51 trivial, update, inside,
    listed, fun ordered => ?_⟩
  have increasing : ((listing (fun _ => true) update).map (·.seq)).Pairwise (· < ·) :=
    List.pairwise_map.mpr ordered
  rw [listed] at increasing
  have := (List.pairwise_append.mp increasing).2.2 4 (by decide) 3 (by decide)
  omega

end Khala.LocalWeb
