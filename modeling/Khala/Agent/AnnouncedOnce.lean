import Khala.Agent.JoinRuns

/-! Every join of an agent is announced once, whatever fails and whenever the helper restarts. -/

namespace Khala.Announce

open Js Decode Local

/-- The agent had a transition before this one. -/
def joinedBefore (userId : Text) (events : List LocalEvent) (joined : LocalEvent) : Bool :=
  (transitions userId events).any (·.seq < joined.seq)

variable {userId : Text}

/-- The transitions are some of the events, in their order. -/
private theorem sublist_transitions (events : List LocalEvent) :
    (transitions userId events).Sublist events := by
  induction events using List.reverseRecOn with
  | nil => exact List.Sublist.slnil
  | append_singleton events event ih =>
    rw [transitions_concat]
    split
    · exact ih.append (List.Sublist.refl _)
    · exact ih.trans (List.sublist_append_left _ _)

/-- A transition is the first one that is told exactly when there is none before it. -/
private theorem head_iff {channel : Channel} (indexed : channel.Indexed) {joined : LocalEvent}
    (inside : joined ∈ transitions userId channel.events) :
    (told (marks userId channel.events)).1.head? = some (joined.eventId, displayNameOf joined)
      ↔ joinedBefore userId channel.events joined = false := by
  have among : ∀ event ∈ transitions userId channel.events, event ∈ channel.events :=
    fun event inside => (sublist_transitions channel.events).subset inside
  have ascending : Ascending (transitions userId channel.events) :=
    indexed.ascending.sublist (sublist_transitions _)
  rw [told_marks]
  simp only [List.head?_map, joinedBefore]
  cases whole : transitions userId channel.events with
  | nil =>
    rw [whole] at inside
    cases inside
  | cons first rest =>
    rw [whole] at ascending inside among
    rw [List.head?_cons, Option.map_some, Option.some.injEq, Prod.mk.injEq]
    constructor
    · rintro ⟨same, -⟩
      -- An identifier is that of one event.
      have one := indexed.found first (among first List.mem_cons_self)
      rw [same, indexed.found joined (among joined inside)] at one
      cases one
      rw [List.any_eq_false]
      intro event inside'
      rcases List.mem_cons.mp inside' with rfl | later
      · simp
      · have := (List.pairwise_cons.mp ascending).1 event later
        simpa using Nat.le_of_lt this
    · intro none_
      rw [List.any_eq_false] at none_
      rcases List.mem_cons.mp inside with rfl | later
      · exact ⟨rfl, rfl⟩
      · have before := (List.pairwise_cons.mp ascending).1 joined later
        exact absurd (by simpa using before) (none_ first List.mem_cons_self)

/-- Which join a transaction announces. -/
private theorem announcementTxn_injective {eventId eventId' : Text}
    (shaped : isLocalEventId eventId = true) (shaped' : isLocalEventId eventId' = true)
    (same : announcementTxn eventId = announcementTxn eventId') : eventId = eventId' := by
  simp only [isLocalEventId, Bool.and_eq_true, beq_iff_eq] at shaped shaped'
  have rest : eventId.drop 1 = eventId'.drop 1 := List.append_cancel_left same
  rw [← List.take_append_drop 1 eventId, ← List.take_append_drop 1 eventId', shaped.1.2,
    shaped'.1.2, rest]

variable {ids : Nat → Text}

/-- What is due to a transition: at most one announcement under its transaction, one when a join
that began while the transition stood, or that made it, was answered with 200 and its summary is
accepted; and the announcement says `rejoined` exactly when the agent had an earlier transition. -/
private theorem announced_transition (agent : isLocalAgentUserId userId = true)
    (distinct : Function.Injective ids) {state : State} (reached : Reached userId ids state)
    (shaped : ∀ draw < state.room.drawn, isLocalEventId (ids draw) = true) {joined : LocalEvent}
    (transition : joined ∈ transitions userId state.room.channel.events) :
    (announcements joined state.room.channel.events).length ≤ 1
      ∧ ((∃ answer ∈ state.answers, answer.serves = some joined.eventId) →
        (encodeJoin (displayNameOf joined)
          (joinedBefore userId state.room.channel.events joined)).isOk →
          (announcements joined state.room.channel.events).length = 1)
      ∧ ∀ announcement ∈ announcements joined state.room.channel.events, ∃ encoded,
        encodeJoin (displayNameOf joined)
          (joinedBefore userId state.room.channel.events joined) = .ok encoded
          ∧ announcement.content = encoded.members := by
  -- The marks of the channel tell its transitions and its announcements.
  obtain ⟨ms, sound⟩ := reached.sound agent distinct shaped
  have indexed := (sound.room.sound distinct).indexed
  have is := sound.tells.marks
  have head := head_iff indexed transition
  have shown := @announcements_marks userId joined state.room.channel.events
  -- The transition is one of those that the marks tell of.
  have inside : (joined.eventId, displayNameOf joined) ∈ (told ms).1 := by
    rw [← is, told_marks]
    exact List.mem_map_of_mem transition
  rw [is] at head shown
  -- Announcements are marks under the transaction of the transition, which is there at most once.
  have count : (announcements joined state.room.channel.events).length = (txnIds ms).count
    (announcementTxn joined.eventId) := by
    rw [← length_announces, ← shown, List.length_map]
  have few : (announcements joined state.room.channel.events).length ≤ 1 := by
    rw [count]
    exact List.nodup_iff_count_le_one.mp sound.ok.once _
  refine ⟨few, fun answered accepted => ?_, fun announcement announces => ?_⟩
  · obtain ⟨answer, there, serves⟩ := answered
    -- An answer that serves the transition found it announced, or its name refused.
    obtain ⟨-, served⟩ := sound.answers answer there joined.eventId serves
    rcases served (displayNameOf joined) inside with announced | refused
    · have := List.count_pos_iff.mpr announced
      omega
    -- Whether it was refused as a join or as a rejoin is what the marks say too.
    · have flag : decide ((told ms).1.head? ≠ some (joined.eventId, displayNameOf joined))
          = joinedBefore userId state.room.channel.events joined := by
        cases before : joinedBefore userId state.room.channel.events joined with
        | true => simpa [before] using head
        | false => simpa [before] using head
      rw [flag] at refused
      cases encodes : encodeJoin (displayNameOf joined)
        (joinedBefore userId state.room.channel.events joined) with
      | error error =>
        rw [encodes] at accepted
        cases accepted
      | ok encoded => exact absurd encodes (refused encoded)
  · have content :
      announcement.content ∈ ms.filterMap (Mark.announces (announcementTxn joined.eventId)) := by
      rw [← shown]
      exact List.mem_map_of_mem announces
    obtain ⟨m, there, gives⟩ := List.mem_filterMap.mp content
    cases m with
    | member _ _ _ => cases gives
    -- An announcement names some transition, and its transaction says which.
    | announcement txnId content' =>
      rw [Mark.announces] at gives
      split at gives
      · rename_i same
        cases gives
        obtain ⟨eventId, displayName, rejoin, encoded, isMember, named, encodes, whole, flagged⟩ :=
          sound.ok.right _ _ there
        have own := member_of_told inside
        have sameId : eventId = joined.eventId :=
          announcementTxn_injective (sound.ok.shown _ _ _ isMember).1
          (sound.ok.shown _ _ _ own).1 (named.symm.trans same)
        subst sameId
        have sameName : displayName = displayNameOf joined := sound.ok.same isMember own
        subst sameName
        -- So its flag is that of this transition, and its content the encoded join.
        have flag : rejoin = joinedBefore userId state.room.channel.events joined := by
          have both := (flagged.rejoins inside).trans head
          cases rejoin with
          | true => simpa using both
          | false => simpa using both
        exact ⟨encoded, flag ▸ encodes, whole⟩
      · cases gives

/-- When joins are written in time, every announcement of a join is one of a transition. -/
private theorem announcement_transition (agent : isLocalAgentUserId userId = true)
    (distinct : Function.Injective ids) {state : State} (timely : Timely userId ids state)
    (shaped : ∀ draw < state.room.drawn, isLocalEventId (ids draw) = true)
    {announcement : LocalEvent}
    (announces : announcement ∈ joinAnnouncements state.room.channel.events) :
    ∃ joined ∈ transitions userId state.room.channel.events,
      announcement ∈ announcements joined state.room.channel.events := by
  obtain ⟨ms, sound⟩ := timely.sound agent distinct shaped
  obtain ⟨inside, is⟩ := List.mem_filter.mp announces
  rw [Bool.and_eq_true, Bool.and_eq_true, decide_eq_true_eq, decide_eq_true_eq, Option.any_eq_true]
    at is
  obtain ⟨⟨type, sender⟩, txnId, txn, joins⟩ := is
  -- The announcement is told, so that it is one of a join, and the join is a transition.
  have told' : .announcement txnId announcement.content ∈ ms := by
    rw [← sound.tells.marks]
    refine List.mem_filterMap.mpr ⟨announcement, inside, ?_⟩
    have other : announcement.isMemberOf userId = false := by
      rw [LocalEvent.isMemberOf, type]
      rfl
    have isJoin : IsJoinTxn txnId := of_decide_eq_true joins
    rw [mark, other, if_neg Bool.false_ne_true, if_pos ⟨type, sender⟩, txn]
    simp [Option.filter_some, isJoin]
  obtain ⟨eventId, displayName, rejoin, _, -, named, -, -, flagged⟩ := sound.ok.right _ _ told'
  have transits := flagged.transits trivial
  rw [← sound.tells.marks, told_marks] at transits
  obtain ⟨joined, transition, same⟩ := List.mem_map.mp transits
  refine ⟨joined, transition, List.mem_filter.mpr ⟨inside, ?_⟩⟩
  cases same
  simp [type, sender, txn, named]

/-- In every state a transition has at most one announcement, it has one when a join that began
while the transition stood, or that made it, was answered with 200 and its summary is accepted, and
the announcement says `rejoined` exactly when the agent had an earlier transition. When joins are
written in time, there is no other announcement of a join. -/
theorem announced_once (agent : isLocalAgentUserId userId = true)
    (distinct : Function.Injective ids) {state : State} (reached : Reached userId ids state)
    (shaped : ∀ draw < state.room.drawn, isLocalEventId (ids draw) = true) :
    (∀ joined ∈ transitions userId state.room.channel.events,
      (announcements joined state.room.channel.events).length ≤ 1
        ∧ ((∃ answer ∈ state.answers, answer.serves = some joined.eventId) →
          (encodeJoin (displayNameOf joined)
            (joinedBefore userId state.room.channel.events joined)).isOk →
            (announcements joined state.room.channel.events).length = 1)
        ∧ ∀ announcement ∈ announcements joined state.room.channel.events, ∃ encoded,
          encodeJoin (displayNameOf joined)
            (joinedBefore userId state.room.channel.events joined) = .ok encoded
            ∧ announcement.content = encoded.members)
      ∧ (Timely userId ids state → ∀ announcement ∈ joinAnnouncements state.room.channel.events,
        ∃ joined ∈ transitions userId state.room.channel.events,
          announcement ∈ announcements joined state.room.channel.events) :=
  ⟨fun _ transition => announced_transition agent distinct reached shaped transition,
    fun timely _ announces => announcement_transition agent distinct timely shaped announces⟩

/-! ## Runs -/

/-- Identifiers that are numbered. -/
def numberedIds (draw : Nat) : Text := lit "$" ++ padStart 22 (decimal draw)

/-- Different draws give different identifiers. -/
private theorem numberedIds_injective : Function.Injective numberedIds := by
  have zeros : ∀ (count : Nat) (digits : Text),
    readDigits 0 (List.replicate count 48 ++ digits) = readDigits 0 digits := by
    intro count digits
    induction count with
    | zero => rfl
    | succ count ih => exact ih
  intro draw draw' same
  have digits : padStart 22 (decimal draw) = padStart 22 (decimal draw') :=
    List.append_cancel_left same
  have read := congrArg (readDigits 0) digits
  rwa [padStart, padStart, zeros, zeros, readDigits_decimal, readDigits_decimal] at read

def anAgent : Text := lit "@agent-0a1b2c3d:local"

def aChannel : State :=
  ⟨createChannel numberedIds (lit "!AAAAAAAAAAAAAAAAAAAAAA:local") (lit "room")
    (lit "ann") none 0 1 2 none none, [], none, []⟩

/-- The states that actions lead to, when each of them meets what it has to. -/
def run (actions : List Action) : State := actions.foldl (State.step anAgent numberedIds) aChannel

/-- The agent comes, joins, and its join is announced. -/
def joining : List Action :=
  [.invite (lit "bot") (lit "claude"), .append 3 none, .join, .append 4 none, .resume,
    .append 5 none, .resume]

/-- Whether an action of a run meets what it has to. -/
def permit (state : State) : Action → Bool
  | .join | .echo _ => state.running.isNone
  | .append ts _ => ts ≤ maxSafeInteger && state.room.channel.lastSeq < maxSafeInteger
  | .other _ => false
  | .rename _ | .leave | .invite _ _ | .resume | .restart _ _ _ => true

def permits : State → List Action → Bool
  | _, [] => true
  | state, action :: rest =>
    permit state action && permits (state.step anAgent numberedIds action) rest

/-- Whether a join's own membership event is written in time. -/
def inTime (state : State) : Action → Bool
  | .append _ _ => match state.queue, state.running with
    | ⟨_, true⟩ :: _, some ⟨.joining _, none⟩ => (standing anAgent state.room.channel.events).isNone
    | _, _ => true
  | _ => true

def timely : State → List Action → Bool
  | _, [] => true
  | state, action :: rest =>
    inTime state action && timely (state.step anAgent numberedIds action) rest

/-- The check that an action is permitted is sound. -/
private theorem meets_of_permit {state : State} {action : Action}
    (permitted : permit state action = true) :
    Meets anAgent state action := by
  cases action with
  | join => exact permitted
  | echo mode => exact permitted
  | append ts fault => simpa [Meets, permit] using permitted
  | other input => cases permitted
  | rename name => trivial
  | leave => trivial
  | invite name harness => trivial
  | resume => trivial
  | restart harnesses ownerName torn => trivial

/-- The check that a join is written in time is sound. -/
private theorem inTime_of_inTime {state : State} {action : Action}
    (is : inTime state action = true) :
    InTime anAgent state action := by
  -- Only an append can be late, and then it is the one at the head of the queue.
  cases action with
  | append ts fault =>
    intro pending rejoin first own running
    cases queue : state.queue with
    | nil =>
      rw [queue] at first
      cases first
    | cons head rest =>
      rw [queue] at first
      cases first
      obtain ⟨input, rooms⟩ := pending
      cases own
      simp only [inTime, queue, running] at is
      simpa using is
  | join | echo _ | rename _ | leave | invite _ _ | other _ | resume | restart _ _ _ => trivial

/-- A run of permitted actions reaches its state. -/
private theorem reached_run {actions : List Action} (permitted : permits aChannel actions = true) :
    Reached anAgent numberedIds (run actions) := by
  have from_ : ∀ (actions : List Action) (state : State), Reached anAgent numberedIds state →
    permits state actions = true →
      Reached anAgent numberedIds (actions.foldl (State.step anAgent numberedIds) state) := by
    intro actions
    induction actions with
    | nil => exact fun state reached _ => reached
    | cons action rest ih =>
      intro state reached permitted
      rw [permits, Bool.and_eq_true] at permitted
      exact ih _ (.step action reached (meets_of_permit permitted.1)) permitted.2
  exact from_ actions aChannel (.start _ _ _ none 0 1 2 (by decide)) permitted

/-- A run of permitted actions with all joins in time reaches its state in time. -/
private theorem timely_run {actions : List Action} (permitted : permits aChannel actions = true)
    (isTimely : timely aChannel actions = true) : Timely anAgent numberedIds (run actions) := by
  have from_ : ∀ (actions : List Action) (state : State), Timely anAgent numberedIds state →
    permits state actions = true →
      timely state actions = true →
        Timely anAgent numberedIds (actions.foldl (State.step anAgent numberedIds) state) := by
    intro actions
    induction actions with
    | nil => exact fun state reached _ _ => reached
    | cons action rest ih =>
      intro state reached permitted isTimely
      rw [permits, Bool.and_eq_true] at permitted
      rw [timely, Bool.and_eq_true] at isTimely
      exact ih _ (.step action reached (meets_of_permit permitted.1) (inTime_of_inTime isTimely.1))
        permitted.2 isTimely.2
  exact from_ actions aChannel (.start _ _ _ none 0 1 2 (by decide)) permitted isTimely

/-- The one transition of a first join has one announcement, and there is no other. -/
theorem announced_once_joining :
    (transitions anAgent (run joining).room.channel.events).map (·.seq) = [4]
      ∧ (∀ joined ∈ transitions anAgent (run joining).room.channel.events,
        (announcements joined (run joining).room.channel.events).length = 1)
      ∧ ∀ announcement ∈ joinAnnouncements (run joining).room.channel.events,
        ∃ joined ∈ transitions anAgent (run joining).room.channel.events,
          announcement ∈ announcements joined (run joining).room.channel.events := by
  -- All that is asked of the run is found in one evaluation of it.
  obtain ⟨permitted, isTimely, shaped, transits, answered⟩ : permits aChannel joining = true
    ∧ timely aChannel joining = true
      ∧ (∀ draw < (run joining).room.drawn, isLocalEventId (numberedIds draw) = true)
      ∧ (transitions anAgent (run joining).room.channel.events).map (·.seq) = [4]
      ∧ ((transitions anAgent (run joining).room.channel.events).all fun joined =>
        ((run joining).answers.any fun answer => answer.serves = some joined.eventId)
          && (encodeJoin (displayNameOf joined)
            (joinedBefore anAgent (run joining).room.channel.events joined)).isOk) = true := by
    decide +kernel
  obtain ⟨once, only⟩ :=
    announced_once (by decide) numberedIds_injective (reached_run permitted) shaped
  refine ⟨transits, fun joined transition => ?_, only (timely_run permitted isTimely)⟩
  have both := List.all_eq_true.mp answered joined transition
  rw [Bool.and_eq_true, List.any_eq_true] at both
  obtain ⟨⟨answer, there, serves⟩, accepted⟩ := both
  exact (once joined transition).2.1 ⟨answer, there, by simpa using serves⟩ accepted

/-- The announcement of a first join fails; the agent leaves, and joins again. -/
def rejoining : List Action :=
  [.invite (lit "bot") (lit "claude"), .append 3 none, .join, .append 4 none, .resume,
    .append 5 (some (.line false)), .resume,
    .leave, .append 6 none, .invite (lit "bot") (lit "claude"), .append 7 none, .join,
      .append 8 none, .resume, .append 9 none, .resume]

/-- The agent comes anew with its link while a new name is on its way. The next join reads that it
is invited, the new name still says that it is in the channel and is written first, and one more
join follows. -/
def overtaken : List Action :=
  joining ++ [Action.invite (lit "bot") (lit "claude"), .rename (lit "bot2"), .append 6 none, .join,
    .append 7 none, .append 8 none,
    .resume, .append 9 none, .resume, .join, .append 10 none, .resume]

/-- A join whose announcement failed is not announced any more when the agent has left. And a join
that was overtaken announces its own event, which is no transition. -/
theorem left_unannounced : (¬ ∀ state, Reached anAgent numberedIds state →
    ∀ joined ∈ transitions anAgent state.room.channel.events,
      (∃ answer ∈ state.answers, joined.seq ≤ answer.seq) →
      (encodeJoin (displayNameOf joined)
        (joinedBefore anAgent state.room.channel.events joined)).isOk →
        (announcements joined state.room.channel.events).length = 1)
    ∧ ∃ state, Reached anAgent numberedIds state
      ∧ (transitions anAgent state.room.channel.events).map (·.seq) = [4, 7]
      ∧ (joinAnnouncements state.room.channel.events).map (·.seq) = [5, 9, 10] := by
  -- Both runs are checked by computation; the second answers a join that it never announces.
  obtain ⟨permitted, twice⟩ : permits aChannel overtaken = true
      ∧ (transitions anAgent (run overtaken).room.channel.events).map (·.seq) = [4, 7]
      ∧ (joinAnnouncements (run overtaken).room.channel.events).map (·.seq)
        = [5, 9, 10] := by decide +kernel
  refine ⟨fun all => ?_, run overtaken, reached_run permitted, twice⟩
  obtain ⟨permitted, lost⟩ : permits aChannel rejoining = true
    ∧ ((transitions anAgent (run rejoining).room.channel.events).any fun joined =>
      ((run rejoining).answers.any fun answer => joined.seq ≤ answer.seq)
        && (encodeJoin (displayNameOf joined)
          (joinedBefore anAgent (run rejoining).room.channel.events joined)).isOk
        && (announcements joined (run rejoining).room.channel.events).length == 0) = true := by
    decide +kernel
  obtain ⟨joined, transition, is⟩ := List.any_eq_true.mp lost
  rw [Bool.and_eq_true, Bool.and_eq_true, List.any_eq_true] at is
  obtain ⟨⟨⟨answer, there, later⟩, accepted⟩, none_⟩ := is
  have one :=
    all (run rejoining)
    (reached_run permitted) joined transition ⟨answer, there, by simpa using later⟩ accepted
  rw [one] at none_
  cases none_

end Khala.Announce
