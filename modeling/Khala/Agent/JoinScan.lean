import Khala.Agent.JoinMarks
import Khala.Agent.HistoryPaging

/-! The transitions in what a log tells, how they stay right while it grows, and what the scan for
them finds. -/

namespace Khala.Announce

open Js Decode Local

/-! ## Transitions in what is told -/

def Mark.transit (found : List (Text × Text) × Bool) : Mark → List (Text × Text) × Bool
  | .member eventId displayName membership =>
    (if membership = lit "join" && !found.2 then found.1 ++ [(eventId, displayName)] else found.1,
      membership = lit "join")
  | .announcement _ _ => found

/-- The transitions that are told, and whether the agent is in the channel after them. -/
def told (ms : List Mark) : List (Text × Text) × Bool := ms.foldl Mark.transit ([], false)

/-- One more mark is told after the others. -/
theorem told_concat (ms : List Mark) (m : Mark) : told (ms ++ [m]) = Mark.transit (told ms) m := by
  rw [told, List.foldl_concat, told]

/-- A later mark leaves the transitions so far at the front. -/
theorem told_begins (ms : List Mark) (m : Mark) : (told ms).1 <+: (told (ms ++ [m])).1 := by
  rw [told_concat]
  cases m with
  | member eventId displayName membership =>
    simp only [Mark.transit]
    split
    · exact List.prefix_append _ _
    · exact List.prefix_rfl
  | announcement txnId content => exact List.prefix_rfl

/-- The events' identifiers in what is told. -/
def eventIds (ms : List Mark) : List Text := ms.filterMap Mark.eventId

/-- The transactions in what is told. -/
def txnIds (ms : List Mark) : List Text := ms.filterMap Mark.txnId

/-- The identifier of a marked membership event is marked. -/
theorem mem_eventIds {ms : List Mark} {eventId displayName membership : Text}
    (inside : .member eventId displayName membership ∈ ms) : eventId ∈ eventIds ms :=
  List.mem_filterMap.mpr ⟨_, inside, rfl⟩

/-- A transition is an event that makes the agent a member. -/
theorem member_of_told {ms : List Mark} {eventId displayName : Text}
    (inside : (eventId, displayName) ∈ (told ms).1) :
    .member eventId displayName (lit "join") ∈ ms := by
  -- The induction takes the last mark, which is what the count of transitions looks at.
  induction ms using List.reverseRecOn with
  | nil => cases inside
  | append_singleton ms m ih =>
    rw [told_concat] at inside
    cases m with
    | member eventId' displayName' membership =>
      simp only [Mark.transit] at inside
      split at inside
      -- It is a transition: the pair is an old one or its own.
      · rename_i isJoin
        rw [Bool.and_eq_true, decide_eq_true_eq] at isJoin
        rcases List.mem_append.mp inside with before | last
        · exact List.mem_append_left _ (ih before)
        · cases List.mem_singleton.mp last
          rw [isJoin.1]
          simp
      · exact List.mem_append_left _ (ih inside)
    | announcement txnId content => exact List.mem_append_left _ (ih inside)

/-! ## What may be told -/

/-- A name that the reader of a line accepts. -/
def Shown (name : Text) : Prop := ∀ path, displayName (.string name) path = .ok name

/-- The announcement says `rejoined` unless the join is the first one. When joins are written in
time, it is one of a transition. -/
structure Flagged (timely : Prop) (ms : List Mark) (eventId displayName : Text) (rejoin : Bool) :
    Prop where
  transits : timely → (eventId, displayName) ∈ (told ms).1
  rejoins : (eventId, displayName) ∈ (told ms).1 →
    (rejoin = false ↔ (told ms).1.head? = some (eventId, displayName))

/-- The announcement is one of a join that is told. -/
def Right (timely : Prop) (ms : List Mark) (txnId : Text) (content : Members) : Prop :=
  ∃ eventId displayName rejoin encoded, .member eventId displayName (lit "join") ∈ ms
    ∧ txnId = announcementTxn eventId
    ∧ encodeJoin displayName rejoin = .ok encoded ∧ content = encoded.members
    ∧ Flagged timely ms eventId displayName rejoin

/-- A mark that may be told next. -/
inductive Grows (timely : Prop) (ms : List Mark) : Mark → Prop
  | member {eventId displayName membership : Text} (fresh : eventId ∉ eventIds ms)
    (isEvent : isLocalEventId eventId = true)
      (shown : Shown displayName) (known : membership ∈ [lit "invite", lit "join", lit "leave"]) :
    Grows timely ms (.member eventId displayName membership)
  | announcement {txnId : Text} {content : Members} (fresh : txnId ∉ txnIds ms)
    (right : Right timely ms txnId content) :
    Grows timely ms (.announcement txnId content)

/-- What is told is right: events and announcements are told once, and every announcement is one of
a join. -/
structure Ok (timely : Prop) (ms : List Mark) : Prop where
  shown : ∀ eventId displayName membership, .member eventId displayName membership ∈ ms →
    isLocalEventId eventId = true ∧ Shown displayName
      ∧ membership ∈ [lit "invite", lit "join", lit "leave"]
  apart : (eventIds ms).Nodup
  once : (txnIds ms).Nodup
  right : ∀ txnId content, .announcement txnId content ∈ ms → Right timely ms txnId content

variable {timely : Prop} {ms : List Mark} {m : Mark}

/-- What is told next makes no transition of an event that was told before. -/
theorem told_of_old {eventId displayName : Text} (old : eventId ∈ eventIds ms)
    (grows : Grows timely ms m) (inside : (eventId, displayName) ∈ (told (ms ++ [m])).1) :
    (eventId, displayName) ∈ (told ms).1 := by
  rw [told_concat] at inside
  cases grows with
  | member fresh isEvent shown known =>
    simp only [Mark.transit] at inside
    split at inside
    · rcases List.mem_append.mp inside with before | last
      · exact before
      · cases List.mem_singleton.mp last
        exact absurd old fresh
    · exact inside
  | announcement fresh right => exact inside

/-- The first transition stays the first. -/
theorem head_told (m : Mark) (some_ : (told ms).1 ≠ []) :
    (told (ms ++ [m])).1.head? = (told ms).1.head? := by
  obtain ⟨later, whole⟩ := told_begins ms m
  rw [← whole]
  cases first : (told ms).1 with
  | nil => exact absurd first some_
  | cons head rest => rfl

/-- What is told of an earlier join stays right. -/
theorem Flagged.grow {eventId displayName : Text} {rejoin : Bool}
    (flagged : Flagged timely ms eventId displayName rejoin) (old : eventId ∈ eventIds ms)
    (grows : Grows timely ms m) :
    Flagged timely (ms ++ [m]) eventId displayName rejoin := by
  refine ⟨fun inTime => (told_begins ms m).subset (flagged.transits inTime), fun inside => ?_⟩
  have before := told_of_old old grows inside
  rw [head_told m (List.ne_nil_of_mem before)]
  exact flagged.rejoins before

/-- An announcement that is right stays so. -/
private theorem Right.grow {txnId : Text} {content : Members}
    (right : Right timely ms txnId content) (grows : Grows timely ms m) :
    Right timely (ms ++ [m]) txnId content := by
  obtain ⟨eventId, displayName, rejoin, encoded, there, named, encodes, same, flagged⟩ := right
  exact ⟨eventId, displayName, rejoin, encoded, List.mem_append_left _ there, named, encodes, same,
    flagged.grow (mem_eventIds there) grows⟩

/-- What is told stays right when it grows. -/
theorem Ok.grow (ok : Ok timely ms) (grows : Grows timely ms m) : Ok timely (ms ++ [m]) := by
  -- One mark more adds its identifier or its transaction at the end.
  have ids : eventIds (ms ++ [m]) = eventIds ms ++ m.eventId.toList := by
    rw [eventIds, List.filterMap_append, eventIds]
    cases m <;> rfl
  have txns : txnIds (ms ++ [m]) = txnIds ms ++ m.txnId.toList := by
    rw [txnIds, List.filterMap_append, txnIds]
    cases m <;> rfl
  -- Each condition has one new case, in which the last mark brings what the condition asks for.
  constructor
  · intro eventId displayName membership inside
    rcases List.mem_append.mp inside with old | new
    · exact ok.shown eventId displayName membership old
    · cases grows with
      | member fresh isEvent shown known =>
        cases List.mem_singleton.mp new
        exact ⟨isEvent, shown, known⟩
      | announcement fresh right => cases List.mem_singleton.mp new
  · rw [ids]
    cases grows with
    | member fresh isEvent shown known =>
      exact List.nodup_append_comm.mp (List.nodup_cons.mpr ⟨fresh, ok.apart⟩)
    | announcement fresh right => exact (List.append_nil (eventIds ms)).symm ▸ ok.apart
  · rw [txns]
    cases grows with
    | member fresh isEvent shown known => exact (List.append_nil (txnIds ms)).symm ▸ ok.once
    | announcement fresh right =>
      exact List.nodup_append_comm.mp (List.nodup_cons.mpr ⟨fresh, ok.once⟩)
  · intro txnId content inside
    rcases List.mem_append.mp inside with old | new
    · exact (ok.right txnId content old).grow grows
    · cases grows with
      | member fresh isEvent shown known => cases List.mem_singleton.mp new
      | announcement fresh right =>
        cases List.mem_singleton.mp new
        exact right.grow (.announcement fresh right)

/-- An event is told once. -/
theorem Ok.same (ok : Ok timely ms) {eventId displayName displayName' membership membership' : Text}
    (one : .member eventId displayName membership ∈ ms)
    (two : .member eventId displayName' membership' ∈ ms) :
    displayName = displayName' := by
  -- Identifiers stand once, so the two marks are one.
  have apart := ok.apart
  clear ok
  induction ms with
  | nil => cases one
  | cons m rest ih =>
    rw [eventIds] at apart ih
    -- One of them is the first: then so is the other, or the identifier would stand twice.
    rcases List.mem_cons.mp one with rfl | one'
    · have first : (Mark.member eventId displayName membership).eventId = some eventId := rfl
      rw [List.filterMap_cons, first, List.nodup_cons] at apart
      rcases List.mem_cons.mp two with same | two'
      · cases same
        rfl
      · exact absurd (mem_eventIds two') apart.1
    · rcases List.mem_cons.mp two with rfl | two'
      · have first : (Mark.member eventId displayName' membership').eventId = some eventId := rfl
        rw [List.filterMap_cons, first, List.nodup_cons] at apart
        exact absurd (mem_eventIds one') apart.1
      · refine ih one' two' ?_
        rw [List.filterMap_cons] at apart
        split at apart
        · exact apart
        · exact (List.nodup_cons.mp apart).2

/-- The transitions are among the events, in their order. -/
private theorem sublist_told (ms : List Mark) :
    ((told ms).1.map Prod.fst).Sublist (eventIds ms) := by
  -- Transitions are taken in the order of their marks.
  induction ms using List.reverseRecOn with
  | nil => exact List.Sublist.slnil
  | append_singleton ms m ih =>
    rw [told_concat, eventIds, List.filterMap_append]
    cases m with
    | member eventId displayName membership =>
      simp only [Mark.transit]
      split
      · rw [List.map_append]
        exact ih.append (List.Sublist.refl _)
      · exact ih.trans (List.sublist_append_left _ _)
    | announcement txnId content => exact ih.trans (List.sublist_append_left _ _)

/-- The last transition is the first one when there is no other. -/
theorem Ok.only (ok : Ok timely ms) {last : Text × Text}
    (atEnd : (told ms).1.getLast? = some last) :
    (told ms).1.length ≤ 1 ↔ (told ms).1.head? = some last := by
  have apart := ok.apart.sublist (sublist_told ms)
  obtain ⟨before, whole⟩ := List.getLast?_eq_some_iff.mp atEnd
  rw [whole] at apart ⊢
  cases before with
  | nil => simp
  | cons first rest =>
    rw [List.cons_append, List.map_cons, List.nodup_cons] at apart
    have differs : first ≠ last := by
      rintro rfl
      exact apart.1 (List.mem_map_of_mem (List.mem_append_right _ (List.mem_singleton_self first)))
    simp [differs]

/-- A join that a request was answered for: it is announced, unless its summary is not accepted. -/
def Served (ms : List Mark) (eventId : Text) : Prop :=
  eventId ∈ eventIds ms ∧ ∀ displayName, (eventId, displayName) ∈ (told ms).1 →
    announcementTxn eventId ∈ txnIds ms
    ∨ ∀ encoded, encodeJoin displayName (decide ((told ms).1.head? ≠ some (eventId, displayName)))
      ≠ .ok encoded

/-- A join that is served stays so. -/
theorem Served.grow {eventId : Text} (served : Served ms eventId) (grows : Grows timely ms m) :
    Served (ms ++ [m]) eventId := by
  obtain ⟨old, announced⟩ := served
  refine ⟨?_, fun displayName inside => ?_⟩
  · rw [eventIds, List.filterMap_append]
    exact List.mem_append_left _ old
  · have before := told_of_old old grows inside
    rw [head_told m (List.ne_nil_of_mem before), txnIds, List.filterMap_append]
    exact (announced displayName before).imp_left (List.mem_append_left _)

/-! ## What a request reads -/

variable {userId : Text}

/-- The transitions are told as the events have them. -/
theorem told_marks (events : List LocalEvent) :
    told (marks userId events) = ((transitions userId events).map fun event =>
      (event.eventId, displayNameOf event),
      (events.foldl (transit userId) ([], false)).2) := by
  -- Both sides read the events from the front, so the induction takes the last event.
  induction events using List.reverseRecOn with
  | nil => rfl
  | append_singleton events event ih =>
    rw [marks_concat, transitions, List.foldl_concat]
    -- A member event is marked, and its membership decides on both sides.
    by_cases about : event.isMemberOf userId = true
    · have is : mark userId event = some (.member event.eventId (displayNameOf event)
          ((textField event.content (lit "membership")).getD [])) := by
        rw [mark, if_pos about]
        rfl
      have joins : (textField event.content (lit "membership")).getD [] = lit "join"
        ↔ isJoin event.content = true := by
        rw [isJoin, decide_eq_true_eq]
        cases textField event.content (lit "membership") with
        | none => exact iff_of_false (by decide) (by simp)
        | some membership => simp
      rw [is, Option.toList_some, told_concat, ih, transit, if_pos about, Mark.transit, transitions]
      -- A join is a transition when the agent was out.
      by_cases isJoin' : isJoin event.content = true
      · cases inside : (events.foldl (transit userId) ([], false)).2 with
        | true => simp [joins.mpr isJoin', isJoin']
        | false => simp [joins.mpr isJoin', isJoin']
      -- Any other membership leaves the transitions and puts the agent out.
      · rw [Bool.not_eq_true] at isJoin'
        have stays : ¬ (textField event.content (lit "membership")).getD [] = lit "join" :=
          fun same => by
          rw [joins.mp same] at isJoin'
          cases isJoin'
        simp [stays, isJoin']
    -- Any other event is marked as an announcement or not at all, and tells no transition.
    · have later :
        told (marks userId events ++ (mark userId event).toList) = told (marks userId events) := by
        rw [mark, if_neg about]
        split
        · cases event.txnId.filter fun txnId => IsJoinTxn txnId with
          | none => rw [Option.map_none, Option.toList_none, List.append_nil]
          | some txnId =>
            rw [Option.map_some, Option.toList_some, told_concat]
            rfl
        · rw [Option.toList_none, List.append_nil]
      rw [later, ih, transit, if_neg about, transitions]

/-- Whether the agent is in the channel is what the last membership event says. -/
theorem inside_eq (events : List LocalEvent) :
    (events.foldl (transit userId) ([], false)).2 = (lastContent events userId).any isJoin := by
  induction events using List.reverseRecOn with
  | nil => rfl
  | append_singleton events event ih =>
    rw [List.foldl_concat, lastContent_concat, transit]
    cases about : event.isMemberOf userId with
    | true => rfl
    | false => exact ih

/-- What the store gives for the agent is the last membership that is told. -/
theorem member_told {channel : Channel} (indexed : channel.Indexed)
    (tells : Tells userId channel ms) {found : Member} (is : member channel userId = some found) :
    (∃ eventId, .member eventId found.displayName found.membership ∈ ms)
      ∧ ((told ms).2 = true ↔ found.membership = lit "join")
      ∧ found.listeningMode ∈ listeningModes := by
  -- What the channel knows of the member is its last event in the log.
  rw [member] at is
  obtain ⟨last, there, rfl⟩ := Option.map_eq_some_iff.mp is
  have content := indexed.last userId
  rw [there, Option.map_some, lastContent] at content
  obtain ⟨event, atEnd, same⟩ := Option.map_eq_some_iff.mp content.symm
  obtain ⟨inside, about⟩ := List.mem_filter.mp (List.mem_of_getLast? atEnd)
  have isLast :
    lastContent channel.events userId = some last.1.content := by
    rw [lastContent, atEnd, Option.map_some, same]
  -- Its mark carries the name and the membership.
  refine ⟨⟨event.eventId, ?_⟩, ?_, ?_⟩
  · rw [← tells.marks]
    apply List.mem_filterMap.mpr
    refine ⟨event, inside, ?_⟩
    rw [mark, if_pos about, same, displayNameOf]
  -- The agent is in when that event is a join.
  · rw [← tells.marks, told_marks, inside_eq, isLast, Option.any_some, isJoin, decide_eq_true_eq]
    cases textField last.1.content (lit "membership") with
    | none => exact iff_of_false (by simp) (show ¬ ([] : Text) = lit "join" by decide)
    | some membership => simp
  -- A mode that does not read is the default one.
  · simp only [memberListeningMode]
    split
    · decide
    · split
      · assumption
      · decide
    · decide

/-! ## The scan -/

/-- An event is a transition when it joins the agent that was not in the channel. -/
theorem transitions_concat (events : List LocalEvent) (event : LocalEvent) :
    transitions userId (events ++ [event]) = if event.isMemberOf userId ∧ isJoin event.content
        ∧ (events.foldl (transit userId) ([], false)).2 = false
          then transitions userId events ++ [event]
      else transitions userId events := by
  rw [transitions, List.foldl_concat, transit, transitions]
  cases event.isMemberOf userId <;> cases isJoin event.content <;> cases
    (events.foldl (transit userId) ([], false)).2 <;> rfl

/-- An announcement that is there stays there. -/
private theorem announcements_concat (joined : LocalEvent) (events : List LocalEvent)
    (event : LocalEvent) (there : announcements joined events ≠ []) :
    announcements joined (events ++ [event]) ≠ [] := by
  rw [announcements, List.filter_append]
  exact List.append_ne_nil_of_left_ne_nil there _

/-- What the scan has found when it has read these events. -/
private theorem foldl_read (events : List LocalEvent) :
    let found := events.foldl (MemberEvents.read userId) ⟨none, none, false, 0⟩
    found.joins = (transitions userId events).length ∧ found.joined = standing userId events
      ∧ (found.current.any fun current => isJoin current.content) = (events.foldl (transit userId)
        ([], false)).2
      ∧ (found.announced = true → ∃ joined, found.joined = some joined
        ∧ announcements joined events ≠ []) := by
  induction events using List.reverseRecOn with
  | nil => exact ⟨rfl, rfl, rfl, nofun⟩
  | append_singleton events event ih =>
    simp only at ih ⊢
    rw [List.foldl_concat]
    obtain ⟨joins, joined, current, announced⟩ := ih
    generalize events.foldl (MemberEvents.read userId) ⟨none, none, false, 0⟩ = found at *
    cases about : event.isMemberOf userId with
    | true =>
      cases isJoin' : isJoin event.content with
      | false =>
        have out : ((events ++ [event]).foldl (transit userId) ([], false)).2 = false := by
          rw [List.foldl_concat, transit, if_pos about, isJoin']
        rw [MemberEvents.read, if_pos about, if_pos isJoin', transitions_concat,
          if_neg (by simp [isJoin']), standing, out]
        exact ⟨joins, rfl, isJoin', nofun⟩
      | true =>
        have inside : ((events ++ [event]).foldl (transit userId) ([], false)).2 = true := by
          rw [List.foldl_concat, transit, if_pos about, isJoin']
        rw [MemberEvents.read, if_pos about, if_neg (by simp [isJoin']), current,
          transitions_concat, standing, inside,
          transitions_concat]
        cases before : (events.foldl (transit userId) ([], false)).2 with
        | true =>
          -- An echo of the membership; the join stands as it was.
          rw [if_pos rfl, if_neg (by simp), if_pos rfl]
          refine ⟨joins, ?_, isJoin', fun isAnnounced => ?_⟩
          · rw [joined, standing, before, if_pos rfl]
          · obtain ⟨there, same, some_⟩ := announced isAnnounced
            exact ⟨there, same, announcements_concat there events event some_⟩
        | false =>
          rw [if_neg Bool.false_ne_true, if_pos ⟨about, isJoin', rfl⟩, if_pos rfl]
          refine ⟨?_, ?_, isJoin', nofun⟩
          · rw [joins, List.length_append, List.length_singleton]
          · rw [List.getLast?_concat]
    | false =>
      have same : (events ++ [event]).foldl (transit userId)
        ([], false) = events.foldl (transit userId) ([], false) := by
        rw [List.foldl_concat, transit, about, if_neg Bool.false_ne_true]
      rw [MemberEvents.read, about, if_neg Bool.false_ne_true, standing, transitions, same,
        ← transitions, ← standing]
      split
      · rename_i announces
        rw [Bool.and_eq_true, Option.any_eq_true] at announces
        obtain ⟨announces, there, is, txn⟩ := announces
        refine ⟨joins, joined, current, fun _ => ⟨there, is, ?_⟩⟩
        rw [announcements, List.filter_append]
        apply List.append_ne_nil_of_right_ne_nil
        rw [List.filter_singleton, announces, Bool.true_and, txn]
        exact List.cons_ne_nil _ _
      · refine ⟨joins, joined, current, fun isAnnounced => ?_⟩
        obtain ⟨there, same, some_⟩ := announced isAnnounced
        exact ⟨there, same, announcements_concat there events event some_⟩

/-- An event without what subscribers get beside it. -/
private def bare (event : LocalEvent) : LocalEvent := { event with previousContent := none }

private def MemberEvents.bare (found : MemberEvents) : MemberEvents :=
  { found with current := found.current.map Announce.bare,
               joined := found.joined.map Announce.bare }

/-- Reading for the member looks only at what is left of an event. -/
private theorem read_bare (found : MemberEvents) (event : LocalEvent) :
    found.bare.read userId (bare event) = (found.read userId event).bare := by
  obtain ⟨current, joined, announced, joins⟩ := found
  -- The scan reads of an event only what its bare form keeps.
  have about : (bare event).isMemberOf userId = event.isMemberOf userId := rfl
  have stands : ((current.map bare).any fun current => isJoin current.content) = current.any
    fun current => isJoin current.content := by
    cases current <;> rfl
  have announces :
    ((joined.map bare).any fun joined => (bare event).txnId = some (announcementTxn joined.eventId))
      = joined.any fun joined => event.txnId = some (announcementTxn joined.eventId) := by
    cases joined <;> rfl
  rw [MemberEvents.read, MemberEvents.read]
  simp only [apply_ite MemberEvents.bare]
  rw [about]
  -- So every branch is taken alike.
  exact ite_congr rfl (fun _ => ite_congr rfl (fun _ => rfl) fun _ =>
    ite_congr (congrArg (· = true) stands) (fun _ => rfl) fun _ => rfl)
    fun _ => ite_congr (congrArg (fun passed => (_ && passed) = true) announces)
      (fun _ => rfl) fun _ => rfl

/-- Reading all events for the member looks only at what is left of them. -/
private theorem foldl_bare (events : List LocalEvent) : ∀ found : MemberEvents,
    (events.map bare).foldl (MemberEvents.read userId) found.bare
      = (events.foldl (MemberEvents.read userId) found).bare := by
  induction events with
  | nil => exact fun _ => rfl
  | cons event rest ih =>
    intro found
    rw [List.map_cons, List.foldl_cons, read_bare, ih, List.foldl_cons]

/-- Delivery leaves what is looked at. -/
private theorem map_bare_delivered (all events : List LocalEvent) :
    (events.map (deliveredIn all)).map bare = events.map bare := by
  rw [List.map_map]
  apply List.map_congr_left
  intro event _
  rw [Function.comp_apply, deliveredIn]
  split
  · rfl
  · rfl

/-- The pages of a scan are all that is left of the events. -/
private theorem readPages_left {channel : Channel} (indexed : channel.Indexed) :
    ∀ (fuel after : Nat) (found : MemberEvents)
    (done rest : List LocalEvent), channel.events = done ++ rest →
    (∀ event ∈ done, event.seq ≤ after) →
      (∀ event ∈ rest, after < event.seq) → rest.length < fuel →
      ∃ found', readPages channel userId fuel after found = some found'
        ∧ found'.bare = (rest.foldl (MemberEvents.read userId) found).bare := by
  -- By induction on the pages that are left; each that is not the last takes events off the rest.
  intro fuel
  induction fuel with
  | zero => exact fun _ _ _ _ _ _ _ enough => absurd enough (Nat.not_lt_zero _)
  | succ fuel ih =>
    intro after found done rest split reached later enough
    have page := eventsAfter_split indexed split reached later 200
    -- The previous contents make no difference to what is read.
    have seen : ∀ start : MemberEvents,
      (((rest.take 200).map (deliveredIn channel.events)).foldl
        (MemberEvents.read userId) start).bare
        = ((rest.take 200).foldl (MemberEvents.read userId) start).bare := fun start => by
      rw [← foldl_bare, ← foldl_bare, map_bare_delivered]
    simp only [readPages]
    rw [page, List.length_map, List.length_take]
    by_cases short : min 200 rest.length < 200
    -- A page that is not full is the last one.
    · rw [if_pos short]
      refine ⟨_, rfl, ?_⟩
      rw [seen, List.take_of_length_le (by omega)]
    · rw [if_neg short]
      obtain ⟨last, atEnd⟩ : ∃ last, (rest.take 200).getLast? = some last := by
        apply Option.isSome_iff_exists.mp
        rw [List.getLast?_isSome, ne_eq, List.take_eq_nil_iff]
        rintro (none_ | nothing)
        · cases none_
        · rw [nothing] at short
          simp at short
      obtain ⟨front, whole⟩ := List.getLast?_eq_some_iff.mp atEnd
      -- The next page starts behind the last event of this one.
      have next :
        (((rest.take 200).map (deliveredIn channel.events)).getLast?.map (·.seq)).getD after
        = last.seq := by
        rw [List.getLast?_map, atEnd]
        exact seq_deliveredIn channel.events last
      have ascending := indexed.ascending
      rw [split, ← List.take_append_drop 200 rest, whole] at ascending
      have first := (List.pairwise_append.mp ascending).2.1
      have upTo := (List.pairwise_append.mp ascending).2.2
      have cut : channel.events = (done ++ rest.take 200) ++ rest.drop 200 := by
        rw [split, List.append_assoc, List.take_append_drop]
      have isLast : last ∈ front ++ [last] := List.mem_append_right _ (List.mem_singleton_self last)
      -- All events up to it have been read.
      have reached' : ∀ event ∈ done ++ rest.take 200, event.seq ≤ last.seq := by
        intro event inside
        rcases List.mem_append.mp inside with before | inside
        · exact Nat.le_of_lt (upTo event before last (List.mem_append_left _ isLast))
        · rw [whole] at inside
          rcases List.mem_append.mp inside with before | same
          · exact Nat.le_of_lt
              ((List.pairwise_append.mp (List.pairwise_append.mp first).1).2.2 event before last
              (List.mem_singleton_self last))
          · rw [List.mem_singleton.mp same]
      have later' : ∀ event ∈ rest.drop 200, last.seq < event.seq :=
        (List.pairwise_append.mp first).2.2 last isLast
      have enough' : (rest.drop 200).length < fuel := by
        rw [List.length_drop]
        omega
      obtain ⟨found', pages, same⟩ := ih last.seq _ _ _ cut reached' later' enough'
      rw [next]
      refine ⟨found', pages, ?_⟩
      rw [same, ← foldl_bare, seen, foldl_bare, ← List.foldl_append, List.take_append_drop]

/-- The content of the announcement under a transaction. -/
def Mark.announces (txnId : Text) : Mark → Option Members
  | .member _ _ _ => none
  | .announcement txnId' content => if txnId' = txnId then some content else none

/-- The transaction of an announcement is that of a join. -/
theorem isJoinTxn_announcementTxn (eventId : Text) : IsJoinTxn (announcementTxn eventId) :=
  List.prefix_append _ _

/-- The mark of an announcement tells its content. -/
private theorem announces_mark {txnId : Text} (joins : IsJoinTxn txnId) (event : LocalEvent) :
    (mark userId event).bind (Mark.announces txnId)
      = if event.type = .channelEvent && event.sender = localOwnerUserId && event.txnId
        = some txnId then some event.content
        else none := by
  rw [mark]
  -- An announcement by the owner is marked with its transaction, when that is of a join.
  by_cases announces : event.type = .channelEvent ∧ event.sender = localOwnerUserId
  · have other : event.isMemberOf userId = false := by
      rw [LocalEvent.isMemberOf, announces.1]
      rfl
    rw [other, if_neg Bool.false_ne_true, if_pos announces, decide_eq_true announces.1,
      decide_eq_true announces.2]
    cases event.txnId with
    | none => rfl
    | some txnId' =>
      by_cases same : txnId' = txnId
      · simp [same, Option.filter_some, joins, Mark.announces]
      · by_cases joins' : IsJoinTxn txnId'
        · simp [same, Option.filter_some, joins', Mark.announces]
        · simp [same, Option.filter_some, joins']
  -- Any other event announces nothing.
  · have none_ :
      (decide (event.type = .channelEvent) && decide (event.sender = localOwnerUserId) && decide
        (event.txnId = some txnId))
        = false := by
      simp only [Bool.and_eq_false_iff, decide_eq_false_iff_not]
      exact .inl (not_and_or.mp announces)
    rw [if_neg announces, none_, if_neg Bool.false_ne_true]
    split
    · rfl
    · rfl

/-- The announcements of a join are the ones that are told. -/
theorem announcements_marks (joined : LocalEvent) (events : List LocalEvent) :
    (announcements joined events).map (·.content)
      = (marks userId events).filterMap (Mark.announces (announcementTxn joined.eventId)) := by
  rw [marks, List.filterMap_filterMap, announcements]
  induction events with
  | nil => rfl
  | cons event rest ih =>
    rw [List.filter_cons, List.filterMap_cons, announces_mark (isJoinTxn_announcementTxn _)]
    split
    · rw [List.map_cons, ih]
    · exact ih

/-- Every transaction that is told has its one announcement. -/
theorem length_announces (ms : List Mark) (txnId : Text) :
    (ms.filterMap (Mark.announces txnId)).length = (txnIds ms).count txnId := by
  -- The induction is on the marks: an announcement counts for its own transaction.
  induction ms with
  | nil => rfl
  | cons m rest ih =>
    rw [txnIds] at ih ⊢
    cases m with
    | member eventId displayName membership => exact ih
    | announcement txnId' content =>
      have named : (Mark.announcement txnId' content).txnId = some txnId' := rfl
      rw [List.filterMap_cons, List.filterMap_cons, named, Mark.announces]
      by_cases same : txnId' = txnId
      · rw [if_pos same, same, List.count_cons_self, List.length_cons, ih]
      · rw [if_neg same, List.count_cons_of_ne same, ih]

/-- An agent inside the channel has joined it. -/
theorem inside_told (inside : (told ms).2 = true) : (told ms).1 ≠ [] := by
  -- Someone who is in has come in by a transition, since the last mark says so.
  induction ms using List.reverseRecOn with
  | nil => cases inside
  | append_singleton ms m ih =>
    rw [told_concat] at inside ⊢
    cases m with
    | member eventId displayName membership =>
      -- A join by someone who is out is a transition itself.
      simp only [Mark.transit, decide_eq_true_eq] at inside ⊢
      cases before : (told ms).2 with
      | true =>
        rw [before] at ih
        simpa using ih rfl
      | false => simp [inside]
    | announcement txnId content => exact ih inside

/-- The scan ends, with what the events tell. -/
theorem memberEvents_told {channel : Channel} (indexed : channel.Indexed)
    (tells : Tells userId channel ms) {found : MemberEvents}
    (is : memberEvents channel userId = some found) : found.joins = (told ms).1.length
      ∧ ((told ms).2 = true → ∃ joined, found.joined = some joined
        ∧ (standing userId channel.events).map (·.eventId) = some joined.eventId
        ∧ (told ms).1.getLast? = some (joined.eventId, displayNameOf joined)
        ∧ (found.announced = true → announcementTxn joined.eventId ∈ txnIds ms)) := by
  -- The pages together are the whole log, read in its bare form.
  obtain ⟨found', pages, same⟩ :=
  @readPages_left userId _ indexed (channel.events.length + 1) 0 ⟨none, none, false, 0⟩ []
    channel.events rfl nofun indexed.positive (Nat.lt_succ_self _)
  rw [memberEvents, pages] at is
  cases is
  -- The scan of the whole log counts the joins and knows the last of them.
  obtain ⟨joins, joined, -, announced⟩ := @foldl_read userId channel.events
  generalize channel.events.foldl (MemberEvents.read userId) ⟨none, none, false, 0⟩ = scan at *
  have events := @told_marks userId channel.events
  rw [tells.marks] at events
  rw [MemberEvents.bare, MemberEvents.bare, MemberEvents.mk.injEq] at same
  obtain ⟨-, sameJoined, sameAnnounced, sameJoins⟩ := same
  refine ⟨by rw [sameJoins, joins, events, List.length_map], fun inside => ?_⟩
  have some_ := inside_told inside
  rw [events] at some_ inside ⊢
  -- The agent is in, so there is a last transition, and it is the one that stands.
  obtain ⟨last, atEnd⟩ : ∃ last, (transitions userId channel.events).getLast? = some last :=
    ⟨_, List.getLast?_eq_some_getLast fun nothing => some_ (by simp only [nothing, List.map_nil])⟩
  have stands : standing userId channel.events = some last := by
    rw [standing, if_pos inside, atEnd]
  rw [joined, stands, Option.map_some] at sameJoined
  -- What the scan has joined is that event, up to what the bare form drops.
  obtain ⟨there, is, same⟩ := Option.map_eq_some_iff.mp sameJoined
  have eventId : (bare there).eventId = (bare last).eventId := by rw [same]
  have name : displayNameOf (bare there) = displayNameOf (bare last) := by rw [same]
  change there.eventId = last.eventId at eventId
  change displayNameOf there = displayNameOf last at name
  refine ⟨there, is, by rw [stands, Option.map_some, eventId], ?_, fun isAnnounced => ?_⟩
  · simp only [List.getLast?_map, atEnd, Option.map_some, eventId, name]
  -- Announced: some announcement was read for it, so its transaction is told.
  · rw [sameAnnounced] at isAnnounced
    obtain ⟨joined', is', shown⟩ := announced isAnnounced
    rw [joined, stands, Option.some.injEq] at is'
    have told' := @announcements_marks userId joined' channel.events
    rw [tells.marks, ← is', ← eventId] at told'
    apply List.count_pos_iff.mp
    rw [← length_announces, ← told', List.length_map]
    exact List.length_pos_iff.mpr (is' ▸ shown)

end Khala.Announce
