import Khala.Agent.JoinScan
import Khala.Contracts.FreeNames

/-! What holds of an agent's joins and their announcements in every state: requests, failures and
restarts add to the log only what may be told next. -/

namespace Khala.Announce

open Js Decode Local

variable {userId : Text} {timely : Prop} {ms : List Mark} {m : Mark}

/-! ## What holds in every state -/

variable (userId) in
/-- The append makes the agent a member. -/
def WritesJoin (input : AppendInput) : Prop :=
  input.type = .member ∧ userOf input.content = userId
    ∧ textField input.content (lit "membership") = some (lit "join")

variable (userId timely) in
/-- What may wait in the store's queue. -/
inductive Permitted (ms : List Mark) : AppendInput → Prop
  | agent {sender : Text} {content : AgentContent} (isUser : isLocalUserId sender = true)
    (user : content.user = userId)
      (valid : AgentContent.Valid { content with harness := none }) :
    Permitted ms ⟨.member, sender, none, content.members⟩
  | announcement {eventId displayName : Text} {rejoin : Bool} {encoded : PlainChannelEvent}
      (there : .member eventId displayName (lit "join") ∈ ms)
      (encodes : encodeJoin displayName rejoin = .ok encoded)
      (flagged : Flagged timely ms eventId displayName rejoin) :
    Permitted ms ⟨.channelEvent, localOwnerUserId, some (announcementTxn eventId), encoded.members⟩
  | other {input : AppendInput} (isOther : IsOther userId input) : Permitted ms input

variable (userId) in
/-- What a room's own route waits for. -/
def Asks (ms : List Mark) : Stage → AppendInput → Prop
  | .joining rejoin, input => WritesJoin userId input ∧ input.txnId = none
      ∧ isLocalUserId input.sender = true ∧ (rejoin = true ↔ (told ms).1 ≠ [])
  | .announcing _ serves, input => input.type = .channelEvent ∧ input.sender = localOwnerUserId
      ∧ ∃ eventId ∈ eventIds ms, input.txnId = some (announcementTxn eventId) ∧ ∀ served ∈ serves,
        served = eventId
  | .echoing, _ => (told ms).1 ≠ []

/-- What a room's own route has when the store has done what it asked for. -/
def Ended (timely : Prop) (ms : List Mark) : Stage → LocalEvent → Prop
  | .joining rejoin, event => .member event.eventId (displayNameOf event) (lit "join") ∈ ms
      ∧ Flagged timely ms event.eventId (displayNameOf event) rejoin
  | .announcing _ serves, _ => ∀ served ∈ serves, served ∈ eventIds ms
    ∧ announcementTxn served ∈ txnIds ms
  | .echoing, _ => True

variable {ids : Nat → Text}

variable (userId timely ids) in
/-- What holds while requests come and go; `ms` is what the channel tells. -/
structure Sound (state : State) (ms : List Mark) : Prop where
  room : state.room.Reachable ids
  isRoom : isLocalRoomId state.room.channel.roomId = true
  /-- The marks are those of the channel's events. -/
  tells : Tells userId state.room.channel ms
  logged : Logged userId (Grows timely ms) state.room ms
  ok : Ok timely ms
  /-- Each pending write may still be permitted when it is its turn. -/
  queue : ∀ pending ∈ state.queue, Permitted userId timely ms pending.input
  /-- Before the first join only the join route writes one. -/
  quiet : (told ms).1 = [] → ∀ pending ∈ state.queue, pending.rooms = false →
    ¬ WritesJoin userId pending.input
  /-- A write of the join route is what its request waits for. -/
  waits : ∀ pending ∈ state.queue, pending.rooms = true →
    ∃ stage, state.running = some ⟨stage, none⟩ ∧ Asks userId ms stage pending.input
  /-- There is one join under way at most. -/
  single : (state.queue.filter (·.rooms)).length ≤ 1
  ended : ∀ stage event, state.running = some ⟨stage, some (some event)⟩ →
    Ended timely ms stage event
  answers : ∀ answer ∈ state.answers, ∀ served ∈ answer.serves, Served ms served

/-! ## Writes -/

/-- The transaction of an announcement is one that the store takes. -/
theorem isLocalTxnId_announcementTxn {eventId : Text} (isEvent : isLocalEventId eventId = true) :
    isLocalTxnId (announcementTxn eventId) = true := by
  simp only [isLocalEventId, Bool.and_eq_true, beq_iff_eq] at isEvent
  -- The identifier of an event has a fixed length and consists of such units.
  obtain ⟨⟨size, -⟩, rest⟩ := isEvent
  have front : (lit "local.join.").all (fun u => isBase64Unit u || u == 46) = true := by decide
  have back : (eventId.drop 1).all (fun u => isBase64Unit u || u == 46) = true := by
    apply List.all_eq_true.mpr
    intro u inside
    rw [List.all_eq_true.mp rest u inside, Bool.true_or]
  have length : (announcementTxn eventId).length = 33 := by
    rw [announcementTxn, List.length_append, List.length_drop, size]
    rfl
  rw [isLocalTxnId, length, announcementTxn, List.all_append, front, back]
  rfl

/-- The content on an agent's line: as it was given, or without its harness. -/
private theorem placeHarness_agent {harnesses harnesses' : Map Text Text} {content : AgentContent}
    {inMemory onLine : Members} (valid : AgentContent.Valid { content with harness := none })
    (places : placeHarness harnesses content.members = some (inMemory, onLine, harnesses')) :
    ∃ content' : AgentContent, content'.Valid ∧ onLine = content'.members := by
  -- Without its harness the content is written like one that never had any.
  obtain ⟨user, membership, displayname, harness, invitedBy, mode⟩ := content
  have without :
    removeField (AgentContent.members ⟨user, membership, displayname, harness, invitedBy, mode⟩)
    (lit "harness")
      = AgentContent.members ⟨user, membership, displayname, none, invitedBy, mode⟩ := by
    cases harness <;> cases invitedBy <;> cases mode <;> rfl
  cases harness with
  -- No harness: the content goes to the line as it is.
  | none =>
    have none_ :
      lookup (AgentContent.members ⟨user, membership, displayname, none, invitedBy, mode⟩)
      (lit "harness") = none := by
      cases invitedBy <;> cases mode <;> rfl
    rw [placeHarness, none_] at places
    simp only at places
    split at places
    · cases places
      exact ⟨_, valid, rfl⟩
    · cases places
      exact ⟨_, valid, rfl⟩
  | some harness =>
    -- A harness is kept in the map where it is known, and then leaves the line.
    have some_ :
      lookup (AgentContent.members ⟨user, membership, displayname, some harness, invitedBy, mode⟩)
      (lit "harness")
        = some (.string harness) := rfl
    rw [placeHarness, some_] at places
    simp only at places
    split at places
    · split at places
      · cases places
        exact ⟨_, valid, without⟩
      · cases places
    -- A harness of the old ones stays on the line, and is a valid one.
    · rename_i legacy
      cases places
      have known : ∀ harness ∈ legacyHarnesses, isHarness harness = true := by decide
      refine ⟨⟨user, membership, displayname, some harness, invitedBy, mode⟩,
        ⟨valid.user, valid.membership, valid.displayname, ?_, valid.invitedBy, valid.mode⟩, rfl⟩
      intro harness' is
      cases is
      exact known harness (not_not.mp legacy)

/-- A marked identifier is that of an event. -/
private theorem event_of_eventIds {events : List LocalEvent} {eventId : Text}
    (inside : eventId ∈ eventIds (marks userId events)) :
    ∃ event ∈ events, event.eventId = eventId := by
  -- The identifier stands on a mark, which is that of some event.
  obtain ⟨m, there, named⟩ := List.mem_filterMap.mp inside
  obtain ⟨event, inside, is⟩ := List.mem_filterMap.mp there
  refine ⟨event, inside, ?_⟩
  rw [mark] at is
  -- A member event is marked with its own identifier; an announcement carries none.
  split at is
  · cases is
    cases named
    rfl
  · split at is
    · obtain ⟨txnId, -, rfl⟩ := Option.map_eq_some_iff.mp is
      cases named
    · cases is

variable {room : Room}

/-- What else is written tells nothing. -/
private theorem quiet_other {input : AppendInput} (isOther : IsOther userId input) (ts : Nat) :
    Tidy (made ids room input ts) ∧ mark userId (made ids room input ts) = none
      ∧ ∀ inMemory onLine harnesses, placed room input = some (inMemory, onLine, harnesses) →
        Legible userId { made ids room input ts with content := onLine } := by
  obtain ⟨isUser, another, apart⟩ := isOther
  -- The event is neither a member event of the agent nor an announcement.
  have nothing : (mark userId (made ids room input ts)).isSome = false := by
    rw [isSome_mark, Bool.or_eq_false_iff]
    constructor
    · rw [LocalEvent.isMemberOf, Bool.and_eq_false_iff, decide_eq_false_iff_not,
        decide_eq_false_iff_not]
      exact not_and_or.mp another
    · rw [Bool.and_eq_false_iff, Bool.and_eq_false_iff, decide_eq_false_iff_not,
        decide_eq_false_iff_not]
      -- A transaction of a join by the owner is ruled out for it.
      by_cases owner : input.sender = localOwnerUserId
      · right
        rw [Option.any_eq_false]
        intro txnId is
        exact decide_eq_false (apart owner txnId is)
      · exact .inl (.inr owner)
  -- So it is tidy, whatever of its content is kept.
  have tidy : ∀ content, Tidy { made ids room input ts with content } := fun content =>
    ⟨isUser, fun owner txnId is joins => absurd joins (apart owner txnId is)⟩
  refine ⟨tidy _, Option.not_isSome_iff_eq_none.mp (by rw [nothing]; exact Bool.false_ne_true),
    fun inMemory onLine harnesses places => ⟨tidy _, fun some_ => ?_⟩⟩
  -- On the line it is marked as in memory, which is not at all.
  have same := (@mark_placed userId room input inMemory onLine harnesses places ids ts).2
  rw [same, nothing] at some_
  cases some_

/-- What the store writes of a permitted append may be told next. -/
private theorem tells_permitted (distinct : Function.Injective ids) (sound : room.Sound ids)
    (isRoom : isLocalRoomId room.channel.roomId = true)
    (shaped : isLocalEventId (ids room.drawn) = true) (tells : Tells userId room.channel ms)
    (logged : Logged userId (Grows timely ms) room ms) (ok : Ok timely ms) {input : AppendInput}
    (permitted : Permitted userId timely ms input)
    (new : (input.txnId.bind fun txnId => room.channel.byTxn.get (txnKey input.sender txnId))
      = none)
    {ts : Nat} (dated : ts ≤ maxSafeInteger) (numbered : room.channel.lastSeq < maxSafeInteger)
    (fault : Option WriteFault) :
    ((room.writeEvent ids input ts fault).2 = none
      ∧ Tells userId (room.writeEvent ids input ts fault).1.channel ms
        ∧ Logged userId (Grows timely ms) (room.writeEvent ids input ts fault).1 ms)
      ∨ ∃ stored, (room.writeEvent ids input ts fault).2 = some stored
        ∧ (∀ m ∈ mark userId stored, Grows timely ms m)
        ∧ mark userId stored = mark userId (made ids room input ts)
        ∧ Tells userId (room.writeEvent ids input ts fault).1.channel
          (ms ++ (mark userId stored).toList)
        ∧ ∀ fits', Logged userId fits' (room.writeEvent ids input ts fault).1
          (ms ++ (mark userId stored).toList) := by
  have framed : ∀ content, isLocalUserId input.sender = true →
    (∀ txnId ∈ input.txnId, isLocalTxnId txnId = true) →
      LocalEvent.Framed { made ids room input ts with content } :=
    fun content sender txnId => ⟨⟨Nat.succ_pos _, numbered⟩, shaped, isRoom, sender, dated, txnId⟩
  -- What is told of the event may be told, and its line is read as it is.
  have kinds : Tidy (made ids room input ts)
    ∧ (∀ m ∈ mark userId (made ids room input ts), Grows timely ms m)
      ∧ ∀ inMemory onLine harnesses, placed room input = some (inMemory, onLine, harnesses) →
        Legible userId { made ids room input ts with content := onLine } := by
    cases permitted with
    | @agent sender content isUser user valid =>
      have tidy : Tidy (made ids room ⟨.member, sender, none, content.members⟩ ts) :=
        ⟨isUser, by simp [made]⟩
      -- The event is about the agent, so it is told as a member event.
      have about :
        (made ids room ⟨.member, sender, none, content.members⟩ ts).isMemberOf userId = true := by
        have named : userOf content.members = content.user := rfl
        rw [LocalEvent.isMemberOf, made, named, user]
        simp
      have is : mark userId (made ids room ⟨.member, sender, none, content.members⟩ ts)
          = some (.member (ids room.drawn) content.displayname content.membership) := by
        rw [mark, if_pos about]
        rfl
      have noTxn : ∀ txnId ∈ (none : Option Text), isLocalTxnId txnId = true :=
        fun _ held => by cases held
      refine ⟨tidy, fun m told => ?_, fun inMemory onLine harnesses places =>
        ⟨⟨isUser, by simp [made]⟩, fun _ => ⟨framed _ isUser noTxn, ?_⟩⟩⟩
      -- A new event identifier is told for the first time.
      · rw [is] at told
        cases told
        refine .member (fun old => ?_) shaped valid.displayname valid.membership
        rw [← tells.marks] at old
        obtain ⟨event, inside, same⟩ := event_of_eventIds old
        obtain ⟨draw, before, drew⟩ := sound.draws event inside
        have := distinct (drew.symm.trans same)
        omega
      · have places' : placeHarness room.channel.harnesses content.members = some (inMemory,
          onLine, harnesses) := places
        obtain ⟨content', valid', rfl⟩ := placeHarness_agent valid places'
        exact readMemberContent_members valid' _
    | @announcement eventId displayName rejoin encoded there encodes flagged =>
      have joins := isJoinTxn_announcementTxn eventId
      have isEvent := (ok.shown _ _ _ there).1
      have owner : isLocalUserId localOwnerUserId = true := by decide
      have txn : ∀ txnId ∈ some (announcementTxn eventId), isLocalTxnId txnId = true := by
        intro txnId is
        cases is
        exact isLocalTxnId_announcementTxn isEvent
      -- An announcement is told under the transaction of its transition.
      have is : mark userId (made ids room ⟨.channelEvent, localOwnerUserId,
        some (announcementTxn eventId), encoded.members⟩ ts)
          = some (.announcement (announcementTxn eventId) encoded.members) := by
        have other :
          (made ids room ⟨.channelEvent, localOwnerUserId, some (announcementTxn eventId),
            encoded.members⟩ ts).isMemberOf
            userId = false := rfl
        have filtered : (some (announcementTxn eventId)).filter (fun txnId =>
          decide (IsJoinTxn txnId)) = some (announcementTxn eventId) := by
          simp [Option.filter_some, joins]
        rw [mark, other, if_neg Bool.false_ne_true, if_pos ⟨rfl, rfl⟩]
        show Option.map _ ((some (announcementTxn eventId)).filter _) = _
        rw [filtered]
        rfl
      refine ⟨⟨owner, fun _ _ _ _ => rfl⟩, fun m told => ?_, fun inMemory onLine harnesses places =>
        ⟨⟨owner, fun _ _ _ _ => rfl⟩, fun _ => ⟨framed _ owner txn, ?_⟩⟩⟩
      -- The transaction is new, so the announcement is told for the first time.
      · rw [is] at told
        cases told
        refine .announcement (fun old => ?_) ⟨eventId, displayName, rejoin, encoded, there, rfl,
          encodes, rfl, flagged⟩
        have found := (tells.txns _ joins).mpr old
        have new' :
          room.channel.byTxn.get (txnKey localOwnerUserId (announcementTxn eventId)) = none := new
        rw [new'] at found
        cases found
      · cases places
        exact readContent_encodeChannelEvent encodes _
    -- Of all other events nothing is told.
    | other isOther =>
      obtain ⟨tidy, nothing, legible⟩ := @quiet_other userId ids room input isOther ts
      refine ⟨tidy, fun m told => ?_, legible⟩
      rw [nothing] at told
      cases told
  obtain ⟨tidy, may, legible⟩ := kinds
  rcases tells_writeEvent tells logged fault tidy legible may
    with failed | ⟨stored, is, -, same, tells', logged'⟩
  · exact .inl failed
  · exact .inr ⟨stored, is, same ▸ may, same, tells', logged'⟩

/-! ## Steps -/

/-- What is told later: the same, or one mark more. -/
def Grown (timely : Prop) (ms ms' : List Mark) : Prop :=
  ms' = ms ∨ ∃ m, Grows timely ms m ∧ ms' = ms ++ [m]

variable {ms' : List Mark}

/-- What may be asked for may be asked for later. -/
private theorem Permitted.grow {input : AppendInput} (permitted : Permitted userId timely ms input)
    (grown : Grown timely ms ms') :
    Permitted userId timely ms' input := by
  rcases grown with rfl | ⟨m, grows, rfl⟩
  · exact permitted
  · cases permitted with
    | agent isUser user valid => exact .agent isUser user valid
    | announcement there encodes flagged =>
      exact .announcement (List.mem_append_left _ there) encodes
        (flagged.grow (mem_eventIds there) grows)
    | other isOther => exact .other isOther

/-- A marked identifier stays marked. -/
private theorem mem_grown {eventId : Text} (inside : eventId ∈ eventIds ms)
    (grown : Grown timely ms ms') : eventId ∈ eventIds ms' := by
  rcases grown with rfl | ⟨m, -, rfl⟩
  · exact inside
  · rw [eventIds, List.filterMap_append]
    exact List.mem_append_left _ inside

/-- A marked transaction stays marked. -/
private theorem txn_grown {txnId : Text} (inside : txnId ∈ txnIds ms)
    (grown : Grown timely ms ms') : txnId ∈ txnIds ms' := by
  rcases grown with rfl | ⟨m, -, rfl⟩
  · exact inside
  · rw [txnIds, List.filterMap_append]
    exact List.mem_append_left _ inside

/-- An agent that has joined has joined for good. -/
private theorem told_grown (some_ : (told ms).1 ≠ []) (grown : Grown timely ms ms') :
    (told ms').1 ≠ [] := by
  rcases grown with rfl | ⟨m, -, rfl⟩
  · exact some_
  · intro nothing
    obtain ⟨later, whole⟩ := told_begins ms m
    rw [nothing] at whole
    exact some_ (List.append_eq_nil_iff.mp whole).1

/-- A stage asks for the same while the log grows, unless a first join comes between. -/
private theorem Asks.grow {stage : Stage} {input : AppendInput} (asks : Asks userId ms stage input)
    (grown : Grown timely ms ms') (stays : (told ms).1 = [] → (told ms').1 = []) :
    Asks userId ms' stage input := by
  cases stage with
  | joining rejoin =>
    obtain ⟨writes, txnId, isUser, flag⟩ := asks
    exact ⟨writes, txnId, isUser, fun rejoins => told_grown (flag.mp rejoins) grown, fun some_ =>
      flag.mpr fun nothing => some_ (stays nothing)⟩
  | announcing event serves =>
    obtain ⟨type, sender, eventId, there, txnId, same⟩ := asks
    exact ⟨type, sender, eventId, mem_grown there grown, txnId, same⟩
  | echoing => exact told_grown asks grown

/-- What a stage ended with stays so while the log grows. -/
private theorem Ended.grow {stage : Stage} {event : LocalEvent}
    (ended : Ended timely ms stage event) (grown : Grown timely ms ms') :
    Ended timely ms' stage event := by
  cases stage with
  | joining rejoin =>
    obtain ⟨there, flagged⟩ := ended
    rcases grown with rfl | ⟨m, grows, rfl⟩
    · exact ⟨there, flagged⟩
    · exact ⟨List.mem_append_left _ there, flagged.grow (mem_eventIds there) grows⟩
  | announcing event serves => exact fun served is =>
    ⟨mem_grown (ended served is).1 grown, txn_grown (ended served is).2 grown⟩
  | echoing => trivial

/-- A join that is served stays so. -/
private theorem Served.grown {eventId : Text} (served : Served ms eventId)
    (grown : Grown timely ms ms') : Served ms' eventId := by
  rcases grown with rfl | ⟨m, grows, rfl⟩
  · exact served
  · exact served.grow grows

/-- Marks that are right stay right while the log grows. -/
private theorem Ok.grown (ok : Ok timely ms) (grown : Grown timely ms ms') : Ok timely ms' := by
  rcases grown with rfl | ⟨m, grows, rfl⟩
  · exact ok
  · exact ok.grow grows

variable {state : State}

/-- The store has done what waited first. -/
private theorem Sound.after (sound : Sound userId timely ids state ms) {pending : Pending}
    {rest : List Pending} (queue : state.queue = pending :: rest) {room' : Room}
    {stored : Option LocalEvent} (reachable : room'.Reachable ids)
    (isRoom : isLocalRoomId room'.channel.roomId = true) (tells : Tells userId room'.channel ms')
    (logged : Logged userId (Grows timely ms') room' ms') (grown : Grown timely ms ms')
    (stays : pending.rooms = false → (told ms).1 = [] → (told ms').1 = [])
    (ended : ∀ stage event, pending.rooms = true → state.running = some ⟨stage, none⟩ →
      Asks userId ms stage pending.input → stored = some event → Ended timely ms' stage event) :
    Sound userId timely ids { state with
      room := room', queue := rest
      running := if pending.rooms then state.running.map fun running =>
        { running with result := some stored } else state.running } ms' := by
  have first : pending ∈ state.queue := queue ▸ List.mem_cons_self
  have later : ∀ other ∈ rest, other ∈ state.queue := fun other inside =>
    queue ▸ List.mem_cons_of_mem _ inside
  have single := sound.single
  rw [queue, List.filter_cons] at single
  refine ⟨reachable, isRoom, tells, logged, sound.ok.grown grown, fun other inside =>
    (sound.queue other (later other inside)).grow grown,
    fun nothing other inside => ?_, fun other inside rooms => ?_, ?_, fun stage event is => ?_,
    fun answer inside served is => (sound.answers answer inside served is).grown grown⟩
  · exact sound.quiet (by_contra fun some_ => told_grown some_ grown nothing) other
      (later other inside)
  · cases own : pending.rooms with
    | true =>
      -- Only one append at a time is a room's own route's.
      rw [own, if_pos rfl, List.length_cons] at single
      have others : other ∈ rest.filter (·.rooms) := List.mem_filter.mpr ⟨inside, rooms⟩
      have := List.length_pos_of_mem others
      omega
    | false =>
      obtain ⟨stage, running, asks⟩ := sound.waits other (later other inside) rooms
      exact ⟨stage, by simpa using running, asks.grow grown (stays own)⟩
  · cases own : pending.rooms with
    | true =>
      rw [own, if_pos rfl, List.length_cons] at single
      exact Nat.le_trans (Nat.le_succ _) single
    | false => simpa [own] using single
  · cases own : pending.rooms with
    | true =>
      obtain ⟨asked, running, asks⟩ := sound.waits pending first own
      simp only [own, if_true, running, Option.map_some, Option.some.injEq, Running.mk.injEq] at is
      obtain ⟨rfl, is⟩ := is
      exact ended asked event own running asks is
    | false =>
      simp only [own, Bool.false_eq_true, if_false] at is
      exact (sound.ended stage event is).grow grown

/-- An append that does not make the agent a member begins no transition. -/
private theorem stays_of_made {room : Room} {input : AppendInput} {ts : Nat}
    (other : ¬ WritesJoin userId input) (is : mark userId (made ids room input ts) = some m)
    (nothing : (told ms).1 = []) : (told (ms ++ [m])).1 = [] := by
  rw [told_concat]
  -- Only a join of the agent would make a transition, and this is none.
  cases m with
  | announcement txnId content => exact nothing
  | member eventId displayName membership =>
    have out : ¬ membership = lit "join" := by
      intro joins
      rw [mark] at is
      split at is
      · rename_i about
        rw [LocalEvent.isMemberOf, Bool.and_eq_true, decide_eq_true_eq, decide_eq_true_eq] at about
        cases is
        refine other ⟨about.1, about.2, ?_⟩
        have given : (textField input.content (lit "membership")).getD [] = lit "join" := joins
        -- A membership that reads as a join is one that the content has.
        cases there : textField input.content (lit "membership") with
        | none =>
          rw [there] at given
          cases given
        | some value =>
          rw [there] at given
          exact congrArg some given
      · split at is
        · obtain ⟨txnId, -, same⟩ := Option.map_eq_some_iff.mp is
          cases same
        · cases is
    -- Any other membership keeps the transitions empty.
    simp [Mark.transit, out, nothing]

/-- A write leaves the room's identifier. -/
private theorem roomId_writeEvent (room : Room) (input : AppendInput) (ts : Nat)
    (fault : Option WriteFault) :
    (room.writeEvent ids input ts fault).1.channel.roomId = room.channel.roomId := by
  unfold Room.writeEvent
  simp only
  split
  · rfl
  · cases fault with
    | some fault => cases fault <;> rfl
    | none => exact roomId_indexEvent _ _

/-- A write draws one identifier. -/
private theorem drawn_writeEvent (room : Room) (input : AppendInput) (ts : Nat)
    (fault : Option WriteFault) :
    (room.writeEvent ids input ts fault).1.drawn = room.drawn + 1 := by
  unfold Room.writeEvent
  simp only
  split
  · rfl
  · cases fault with
    | some fault => cases fault <;> rfl
    | none => rfl

/-- What a joining event tells. -/
private theorem mark_joins {room : Room} {input : AppendInput} {ts : Nat} {stored : LocalEvent}
    (writes : WritesJoin userId input)
    (same : mark userId stored = mark userId (made ids room input ts)) :
    mark userId stored = some (.member stored.eventId (displayNameOf stored) (lit "join")) := by
  obtain ⟨type, user, joins⟩ := writes
  -- The content says that the agent joins, so the event is marked as a join.
  have about : (made ids room input ts).isMemberOf userId = true := by
    rw [LocalEvent.isMemberOf, made, type, user]
    simp
  have is : mark userId (made ids room input ts) = some (.member (ids room.drawn)
    ((textField input.content (lit "displayname")).getD [])
      (lit "join")) := by
    rw [mark, if_pos about]
    simp only [made, joins, Option.getD_some]
  rw [is] at same
  have own := same
  rw [mark] at own
  -- The mark carries the identifier and the name of the event itself.
  split at own
  · rw [Option.some.injEq, Mark.member.injEq] at own
    rw [same, own.1, displayNameOf, own.2.1]
  · split at own
    · obtain ⟨txnId, -, other⟩ := Option.map_eq_some_iff.mp own
      cases other
    · cases own

/-- What the store has written for a room's own route is what the route asked for. -/
private theorem ended_of_written {room : Room} {input : AppendInput} {ts : Nat}
    {stored : LocalEvent} {stage : Stage}
    (inTime : timely → ∀ rejoin, stage = .joining rejoin → (told ms).2 = false)
    (asks : Asks userId ms stage input)
    (same : mark userId stored = mark userId (made ids room input ts))
    (may : ∀ m ∈ mark userId stored, Grows timely ms m) :
    Ended timely (ms ++ (mark userId stored).toList) stage stored := by
  -- By what the route was waiting for: its join event, its announcement, or an echo.
  cases stage with
  | joining rejoin =>
    obtain ⟨writes, -, -, flag⟩ := asks
    -- The event written is marked as a join, under an identifier that is new.
    have is := mark_joins writes same
    have fresh : stored.eventId ∉ eventIds ms := by
      cases may _ is with
      | member fresh isEvent shown known => exact fresh
    rw [is, Option.toList_some]
    refine ⟨by simp, fun isTimely => ?_, fun inside => ?_⟩
    · -- The agent was not in the channel, so that the event is a transition.
      rw [told_concat, Mark.transit, inTime isTimely rejoin rfl, if_pos (by simp)]
      exact List.mem_append_right _ (List.mem_singleton_self _)
    by_cases nothing : (told ms).1 = []
    · -- The first transition of all.
      have first : rejoin = false := by
        rw [← Bool.not_eq_true, flag]
        exact not_not.mpr nothing
      rw [told_concat, Mark.transit, nothing] at inside ⊢
      simp only at inside ⊢
      split at inside
      · rename_i transits
        rw [if_pos transits]
        simp [first]
      · cases inside
    -- A later transition is not the first, as its identifier is new.
    · rw [head_told _ nothing]
      have again : rejoin = true := flag.mpr nothing
      rw [again]
      refine ⟨(fun held => by cases held), fun isHead => ?_⟩
      exact absurd (mem_eventIds (member_of_told (List.mem_of_head? isHead))) fresh
  | announcing event serves =>
    obtain ⟨type, sender, eventId, there, txnId, served⟩ := asks
    -- Where the announcement serves a join, it stands on the log now.
    intro other is
    rw [served other is]
    -- It is marked as an announcement under the transaction of that event.
    have told' :
      mark userId stored = some (.announcement (announcementTxn eventId) input.content) := by
      have notMember : (made ids room input ts).isMemberOf userId = false := by
        rw [LocalEvent.isMemberOf, made, type]
        rfl
      have filtered : (some (announcementTxn eventId)).filter (fun txnId =>
        decide (IsJoinTxn txnId)) = some (announcementTxn eventId) := by
        simp [Option.filter_some, isJoinTxn_announcementTxn]
      rw [same, mark, notMember, if_neg Bool.false_ne_true, made, if_pos ⟨type, sender⟩]
      simp only [txnId, filtered, Option.map_some]
    rw [told', Option.toList_some, eventIds, txnIds, List.filterMap_append, List.filterMap_append]
    exact ⟨List.mem_append_left _ there, List.mem_append_right _ (by simp [Mark.txnId])⟩
  | echoing => trivial

/-- Whoever has no standing transition is not in the channel. -/
private theorem outside_of_standing {channel : Channel} (tells : Tells userId channel ms)
    (none_ : standing userId channel.events = none) : (told ms).2 = false := by
  cases inside : (told ms).2 with
  | false => rfl
  | true =>
    have some_ := inside_told inside
    rw [← tells.marks, told_marks] at some_ inside
    rw [standing, if_pos inside, List.getLast?_eq_none_iff] at none_
    exact absurd (by simp only [none_, List.map_nil]) some_

/-- The store writes what waits first, in time or not at all. -/
private theorem sound_append (distinct : Function.Injective ids)
    (sound : Sound userId timely ids state ms) {ts : Nat} (fault : Option WriteFault)
    (inTime : timely → InTime userId state (.append ts fault))
    (shaped : state.room.drawn < (state.append ids ts fault).room.drawn →
      isLocalEventId (ids state.room.drawn) = true)
    (dated : ts ≤ maxSafeInteger) (numbered : state.room.channel.lastSeq < maxSafeInteger) :
    ∃ ms', Sound userId timely ids (state.append ids ts fault) ms' := by
  cases queue : state.queue with
  -- Nothing is lined up, so nothing is appended.
  | nil =>
    refine ⟨ms, ?_⟩
    rw [State.append, queue]
    exact sound
  | cons pending rest =>
    have first : pending ∈ state.queue := queue ▸ List.mem_cons_self
    have permitted := sound.queue pending first
    have reachable : (state.room.append ids pending.input ts fault).1.Reachable ids :=
      .write sound.room (.append _ _ ts fault)
    rw [State.append, queue] at shaped ⊢
    simp only at shaped ⊢
    cases found : pending.input.txnId.bind fun txnId =>
      state.room.channel.byTxn.get (txnKey pending.input.sender txnId) with
    | some existing =>
      -- The transaction is there already.
      have same : state.room.append ids pending.input ts fault = (state.room, some existing) := by
        rw [Room.append, found]
      rw [same]
      refine ⟨ms, sound.after queue sound.room sound.isRoom sound.tells sound.logged (.inl rfl)
        (fun _ nothing => nothing) ?_⟩
      intro stage event _ _ asks _
      cases stage with
      | joining rejoin =>
        obtain ⟨-, none_, -⟩ := asks
        rw [none_] at found
        cases found
      | announcing event serves =>
        obtain ⟨-, sender, eventId, there, txnId, served⟩ := asks
        intro other is
        rw [served other is]
        refine ⟨there, (sound.tells.txns _ (isJoinTxn_announcementTxn eventId)).mp ?_⟩
        rw [txnId, sender, Option.bind_some] at found
        rw [found]
        rfl
      | echoing => trivial
    -- The event is new, and is told as it was permitted.
    | none =>
      have same :
        state.room.append ids pending.input ts fault = state.room.writeEvent ids pending.input
        ts fault := by
        rw [Room.append, found]
      rw [same] at reachable shaped ⊢
      rw [drawn_writeEvent] at shaped
      have roomSound := sound.room.sound distinct
      have isRoom :
        isLocalRoomId (state.room.writeEvent ids pending.input ts fault).1.channel.roomId
        = true := by
        rw [roomId_writeEvent]
        exact sound.isRoom
      rcases tells_permitted distinct roomSound sound.isRoom (shaped (Nat.lt_succ_self _)) sound.tells sound.logged sound.ok permitted found dated numbered
        fault with ⟨failed, tells, logged⟩ | ⟨stored, is, may, made, tells, logged⟩
      -- A write that fails leaves everything as it was.
      · refine ⟨ms, sound.after queue reachable isRoom tells logged (.inl rfl) (fun _ nothing => nothing) fun stage event _ _ _ is => ?_⟩
        rw [failed] at is
        cases is
      -- A write that succeeds adds its mark.
      · refine ⟨ms ++ (mark userId stored).toList, sound.after queue reachable isRoom tells (logged _) ?_ (fun own nothing => ?_)
          fun stage event own running asks is' => ?_⟩
        · cases told : mark userId stored with
          | none => exact .inl (List.append_nil ms)
          | some m => exact .inr ⟨m, may m told, rfl⟩
        · cases told : mark userId stored with
          | none => rwa [Option.toList_none, List.append_nil]
          | some m => exact stays_of_made (sound.quiet nothing pending first own) (made.symm.trans told) nothing
        · rw [is] at is'
          cases is'
          refine ended_of_written (fun isTimely rejoin is => ?_) asks made may
          rw [is] at running
          exact outside_of_standing sound.tells
            (inTime isTimely pending rejoin (by rw [queue]; rfl) own running)

/-- A route goes on to the store with something that may wait there. -/
private theorem Sound.ask (sound : Sound userId timely ids state ms) {input : AppendInput}
    {stage : Stage} (free : ∀ pending ∈ state.queue, pending.rooms = false)
    (permitted : Permitted userId timely ms input) (asks : Asks userId ms stage input) :
    Sound userId timely ids (state.ask input stage) ms := by
  -- The queue grows by the question of the route; nothing else of the state changes.
  refine ⟨sound.room, sound.isRoom, sound.tells, sound.logged, sound.ok, fun pending inside =>
    ?_, fun nothing pending inside own => ?_,
    fun pending inside rooms => ?_, ?_, fun stage event is => ?_, sound.answers⟩
  · rcases List.mem_append.mp inside with old | new
    · exact sound.queue pending old
    · rw [List.mem_singleton.mp new]
      exact permitted
  · rcases List.mem_append.mp inside with old | new
    · exact sound.quiet nothing pending old own
    · rw [List.mem_singleton.mp new] at own
      cases own
  -- No route was waiting, so this is the only question of a route.
  · rcases List.mem_append.mp inside with old | new
    · rw [free pending old] at rooms
      cases rooms
    · rw [List.mem_singleton.mp new]
      exact ⟨stage, rfl, asks⟩
  · have none_ : state.queue.filter (·.rooms) = [] :=
      List.filter_eq_nil_iff.mpr
        fun pending inside => by rw [free pending inside]; exact Bool.false_ne_true
    rw [State.ask, List.filter_append, none_]
    exact Nat.le_refl 1
  · cases is

/-- A request of someone else's goes on to the store. -/
private theorem Sound.enqueue (sound : Sound userId timely ids state ms) {input : AppendInput}
    (permitted : Permitted userId timely ms input)
    (quiet : (told ms).1 = [] → ¬ WritesJoin userId input) :
    Sound userId timely ids (state.enqueue input) ms := by
  -- An append from elsewhere joins the queue, behind the questions of the routes.
  refine ⟨sound.room, sound.isRoom, sound.tells, sound.logged, sound.ok, fun pending inside =>
    ?_, fun nothing pending inside own => ?_,
    fun pending inside rooms => ?_, ?_, sound.ended, sound.answers⟩
  · rcases List.mem_append.mp inside with old | new
    · exact sound.queue pending old
    · rw [List.mem_singleton.mp new]
      exact permitted
  · rcases List.mem_append.mp inside with old | new
    · exact sound.quiet nothing pending old own
    · rw [List.mem_singleton.mp new]
      exact quiet nothing
  · rcases List.mem_append.mp inside with old | new
    · exact sound.waits pending old rooms
    · rw [List.mem_singleton.mp new] at rooms
      cases rooms
  -- None of the routes' questions is added.
  · rw [State.enqueue, List.filter_append]
    have single := sound.single
    simpa using single

/-- A join is answered for a transition that is announced. -/
private theorem Sound.answer (sound : Sound userId timely ids state ms) {event : Option LocalEvent}
    {serves : Option Text} (free : ∀ pending ∈ state.queue, pending.rooms = false)
    (served : ∀ eventId ∈ serves, Served ms eventId) :
    Sound userId timely ids (state.answer event serves) ms := by
  refine ⟨sound.room, sound.isRoom, sound.tells, sound.logged, sound.ok, sound.queue, sound.quiet,
    fun pending inside rooms => ?_,
    sound.single, fun stage event is => ?_, fun answer inside eventId is => ?_⟩
  · rw [free pending inside] at rooms
    cases rooms
  · cases is
  · rcases List.mem_append.mp inside with old | new
    · exact sound.answers answer old eventId is
    · obtain ⟨answered, -, rfl⟩ := Option.map_eq_some_iff.mp (Option.mem_toList.mp new)
      exact served eventId is

/-- What is left of a join that is told. -/
private theorem Sound.announce (sound : Sound userId timely ids state ms)
    {event joined : Option LocalEvent} {announced rejoin : Bool} {serves : Option Text}
    (free : ∀ pending ∈ state.queue, pending.rooms = false) (some_ : joined = none → serves = none)
    (stands : ∀ join ∈ joined, .member join.eventId (displayNameOf join) (lit "join") ∈ ms
      ∧ Flagged timely ms join.eventId (displayNameOf join) rejoin
      ∧ (∀ served ∈ serves, served = join.eventId)
      ∧ (announced = true → announcementTxn join.eventId ∈ txnIds ms)) :
    Sound userId timely ids (state.announce event joined announced rejoin serves) ms := by
  cases joined with
  | none =>
    rw [some_ rfl]
    exact sound.answer free nofun
  | some join =>
    obtain ⟨there, flagged, served, isAnnounced⟩ := stands join rfl
    rw [State.announce, Option.bind_some]
    cases announced with
    | true =>
      refine sound.answer free fun eventId is => ?_
      rw [served eventId is]
      exact ⟨mem_eventIds there, fun _ _ => .inl (isAnnounced rfl)⟩
    | false =>
      rw [if_neg Bool.false_ne_true]
      cases encodes : encodeJoin (displayNameOf join) rejoin with
      | error error =>
        -- A summary that is not accepted is left out.
        refine sound.answer free fun eventId is => ?_
        rw [served eventId is]
        refine ⟨mem_eventIds there, fun displayName inside => .inr fun encoded => ?_⟩
        have name : displayName = displayNameOf join := sound.ok.same (member_of_told inside) there
        subst name
        have flag :
          decide ((told ms).1.head? ≠ some (join.eventId, displayNameOf join)) = rejoin := by
          have := flagged.rejoins inside
          cases rejoin with
          | true => simpa using this
          | false => simpa using this
        rw [flag, encodes]
        nofun
      | ok encoded =>
        refine sound.ask free (.announcement there encodes flagged) ⟨rfl, rfl, join.eventId,
          mem_eventIds there, rfl, served⟩

/-- While no room's own route waits, nothing in the queue is one's. -/
private theorem Sound.free (sound : Sound userId timely ids state ms)
    (ended : ∀ stage, state.running ≠ some ⟨stage, none⟩) :
    ∀ pending ∈ state.queue, pending.rooms = false := by
  intro pending inside
  rw [← Bool.not_eq_true]
  intro rooms
  obtain ⟨stage, running, -⟩ := sound.waits pending inside rooms
  exact ended stage running

/-- What is written for the agent is read as it is. -/
private theorem valid_memberContent (agent : isLocalAgentUserId userId = true) (ok : Ok timely ms)
    {found : Member} {eventId membership : Text}
    (there : .member eventId found.displayName found.membership ∈ ms)
    (mode : found.listeningMode ∈ listeningModes)
    (known : membership ∈ [lit "invite", lit "join", lit "leave"]) :
    AgentContent.Valid { memberContent userId found membership with harness := none } := by
  refine ⟨?_, known, (ok.shown _ _ _ there).2.1, nofun, nofun, ?_⟩
  · show isLocalUserId userId = true
    rw [isLocalUserId, agent, Bool.or_true]
  · intro other is
    cases is
    exact mode

/-- Beginning a join keeps the state sound. -/
private theorem sound_beginJoin (agent : isLocalAgentUserId userId = true)
    (distinct : Function.Injective ids) (sound : Sound userId timely ids state ms)
    (idle : state.running.isNone) : Sound userId timely ids (state.beginJoin userId) ms := by
  -- No route is running, so none of its questions waits either.
  have indexed := (sound.room.sound distinct).indexed
  have free := sound.free fun stage running => by
    rw [running] at idle
    cases idle
  rw [State.beginJoin]
  split
  · rename_i found scan isMember isScan
    -- What the route reads of the agent and of the log is what the marks tell.
    obtain ⟨⟨eventId, there⟩, inside, mode⟩ := member_told indexed sound.tells isMember
    obtain ⟨joins, stands⟩ := memberEvents_told indexed sound.tells isScan
    split
    · exact sound
    · split
      · -- The agent is in the channel: its last transition may still have no announcement.
        rename_i isJoined
        obtain ⟨join, isJoin, serves, atEnd, announced⟩ := stands (inside.mpr isJoined)
        have told' : (join.eventId, displayNameOf join) ∈ (told ms).1 := List.mem_of_getLast? atEnd
        refine sound.announce free (fun none_ => ?_) fun other is => ?_
        · rw [isJoin] at none_
          cases none_
        · rw [isJoin] at is
          cases is
          refine ⟨member_of_told told', ⟨fun _ => told', fun _ => ?_⟩, fun served is =>
            ?_, announced⟩
          · rw [← sound.ok.only atEnd, ← joins, decide_eq_false_iff_not, Nat.not_lt]
          · rw [serves] at is
            cases is
            rfl
      -- Otherwise the agent joins, and its event is asked for with the flag that the count gives.
      · have isUser : isLocalUserId userId = true := by rw [isLocalUserId, agent, Bool.or_true]
        refine sound.ask free
          (.agent isUser rfl (valid_memberContent agent sound.ok there mode (by decide)))
          ⟨⟨rfl, rfl, rfl⟩, rfl, isUser, ?_⟩
        rw [joins, decide_eq_true_eq, gt_iff_lt, List.length_pos_iff]
  · exact sound

/-- Beginning a mode echo keeps the state sound. -/
private theorem sound_beginEcho (agent : isLocalAgentUserId userId = true)
    (distinct : Function.Injective ids) (sound : Sound userId timely ids state ms)
    (idle : state.running.isNone) (mode : Text) :
    Sound userId timely ids (state.beginEcho userId mode) ms := by
  -- As for a join: no question of a route waits.
  have free := sound.free fun stage running => by
    rw [running] at idle
    cases idle
  rw [State.beginEcho]
  split
  · rename_i found isMember
    obtain ⟨⟨eventId, there⟩, inside, known⟩ :=
      member_told (sound.room.sound distinct).indexed sound.tells isMember
    split
    -- The echo repeats that the agent is in, with the mode it has now.
    · rename_i echoes
      have isUser : isLocalUserId userId = true := by rw [isLocalUserId, agent, Bool.or_true]
      have valid :=
        @valid_memberContent userId timely ms agent sound.ok found eventId
        (lit "join") there known (by decide)
      refine sound.ask free (.agent isUser rfl ⟨valid.user, valid.membership,
        valid.displayname, by simp, by simp [memberContent], ?_⟩)
        (inside_told (inside.mpr echoes.1))
      intro other is
      cases is
      exact echoes.2
    · exact sound
  · exact sound

/-- An accepted name is shown as it is. -/
private theorem shown_of_checkName {name checked : Text}
    (accepted : checkName name .agent = .ok checked) : Shown checked := by
  -- An accepted name consists of mention units, and there are at most forty.
  obtain ⟨same, mention⟩ := checkName_ok accepted
  have units := isMentionName_units mention
  have plain : Plain checked := fun u inside => by
    have := units u inside
    omega
  have size : checked.length ≤ 40 := by
    rw [checkName] at accepted
    split at accepted
    · cases accepted
    · split at accepted
      · cases accepted
      · rename_i fits
        rw [same]
        exact Nat.le_of_not_lt fits
  have some_ : checked ≠ [] := by
    rintro rfl
    cases mention
  exact displayName_plain plain some_ (Nat.le_trans size (by decide))

/-- A rename keeps the state sound. -/
private theorem sound_rename (agent : isLocalAgentUserId userId = true)
    (distinct : Function.Injective ids) (sound : Sound userId timely ids state ms) (name : Text) :
    Sound userId timely ids (state.rename userId name) ms := by
  rw [State.rename]
  split
  · rename_i found checked isMember accepted
    obtain ⟨⟨eventId, there⟩, inside, known⟩ :=
      member_told (sound.room.sound distinct).indexed sound.tells isMember
    split
    · exact sound
    · have valid := valid_memberContent agent sound.ok there known (sound.ok.shown _ _ _ there).2.2
      refine sound.enqueue (.agent (by decide) rfl ⟨valid.user, valid.membership,
        shown_of_checkName accepted, nofun, nofun, valid.mode⟩)
        fun nothing writes => ?_
      -- Who keeps a membership of the channel has come into it before.
      have given : some found.membership = some (lit "join") := writes.2.2
      have joined : found.membership = lit "join" := Option.some.inj given
      exact inside_told (inside.mpr joined) nothing
  · exact sound

/-- A leave keeps the state sound. -/
private theorem sound_leave (agent : isLocalAgentUserId userId = true)
    (distinct : Function.Injective ids) (sound : Sound userId timely ids state ms) :
    Sound userId timely ids (state.leave userId) ms := by
  rw [State.leave]
  split
  · rename_i found isMember
    obtain ⟨⟨eventId, there⟩, -, known⟩ :=
      member_told (sound.room.sound distinct).indexed sound.tells isMember
    split
    · exact sound
    · refine sound.enqueue
        (.agent (by decide) rfl (valid_memberContent agent sound.ok there known (by decide)))
        fun _ writes => ?_
      have joins : some (lit "leave") = some (lit "join") := writes.2.2
      revert joins
      decide
  · exact sound

/-- An invite keeps the state sound. -/
private theorem sound_invite (agent : isLocalAgentUserId userId = true)
    (distinct : Function.Injective ids) (sound : Sound userId timely ids state ms)
    (name harness : Text) : Sound userId timely ids (state.invite userId name harness) ms := by
  have isUser : isLocalUserId userId = true := by rw [isLocalUserId, agent, Bool.or_true]
  rw [State.invite]
  split
  · rename_i checked accepted
    split
    -- The event of an invitation is one by the owner about the agent.
    · have invited : lit "invite" ∈ [lit "invite", lit "join", lit "leave"] := List.mem_cons_self
      refine sound.enqueue (.agent (by decide) rfl ⟨isUser, invited, ?_, by simp, ?_, ?_⟩)
        fun _ writes => ?_
      -- Its name is the accepted one, or the one that the agent had before.
      · cases isMember : member state.room.channel userId with
        | none => exact shown_of_checkName accepted
        | some found =>
          obtain ⟨⟨eventId, there⟩, -, -⟩ :=
            member_told (sound.room.sound distinct).indexed sound.tells isMember
          exact (sound.ok.shown _ _ _ there).2.1
      · intro other is
        cases is
        decide
      · intro mode is
        obtain ⟨found, isMember, rfl⟩ := Option.map_eq_some_iff.mp is
        exact (member_told (sound.room.sound distinct).indexed sound.tells isMember).2.2
      -- An invitation is no join.
      · have joins : some (lit "invite") = some (lit "join") := writes.2.2
        revert joins
        decide
    · exact sound
  · exact sound

/-- A request that goes on keeps the state sound. -/
private theorem sound_resume (sound : Sound userId timely ids state ms) :
    Sound userId timely ids state.resume ms := by
  -- By what the route comes back with: its join, its announcement, or neither.
  rw [State.resume]
  split
  -- The join is written, and its announcement is asked for next.
  · rename_i rejoin event running
    obtain ⟨there, flagged⟩ := sound.ended _ _ running
    refine sound.announce (sound.free fun stage waits => ?_) nofun fun other is => ?_
    · rw [running] at waits
      cases waits
    · cases is
      refine ⟨there, flagged, fun served is => ?_, nofun⟩
      cases is
      rfl
  -- The announcement is written, and the route answers.
  · rename_i event serves stored running
    have ended := sound.ended _ _ running
    refine sound.answer (sound.free fun stage waits => ?_) fun eventId is => ?_
    · rw [running] at waits
      cases waits
    · exact ⟨(ended eventId is).1, fun _ _ => .inl (ended eventId is).2⟩
  -- The route ends with an error, and nothing was waiting for it.
  · rename_i result _ _ running
    refine ⟨sound.room, sound.isRoom, sound.tells, sound.logged, sound.ok, sound.queue,
      sound.quiet, fun pending inside rooms => ?_,
      sound.single, fun _ _ is => (by cases is), sound.answers⟩
    obtain ⟨stage, waits, -⟩ := sound.waits pending inside rooms
    rw [running] at waits
    cases waits
  · exact sound
  · exact sound

/-- A restart keeps the state sound, with the marks that are left. -/
private theorem sound_restart (sound : Sound userId timely ids state ms) (harnesses : Map Text Text)
    (ownerName : Option Text) (torn : Bool) :
    ∃ ms', Sound userId timely ids (state.restart harnesses ownerName torn) ms' := by
  rw [State.restart]
  split
  · rename_i channel opens
    obtain ⟨ms', grown, roomId, tells, logged⟩ := tells_openChannel sound.logged opens
    have isRoom : isLocalRoomId channel.roomId = true := by
      rw [roomId]
      exact sound.isRoom
    exact ⟨ms', .opened harnesses ownerName torn sound.room opens, isRoom, tells, logged _,
      sound.ok.grown grown, nofun, nofun, nofun,
      Nat.zero_le 1, fun _ _ is => (by cases is), fun answer inside served is =>
        (sound.answers answer inside served is).grown grown⟩
  · exact ⟨ms, sound⟩

/-! ## Runs -/

/-- A new channel tells nothing. -/
private theorem sound_start (agent : isLocalAgentUserId userId = true)
    (roomId name ownerUsername : Text) (operationId : Option Text) (drawn ts ts' : Nat)
    (isRoom : isLocalRoomId roomId = true) :
    Sound userId timely ids ⟨createChannel ids roomId name ownerUsername operationId drawn ts ts'
      none none, [], none, []⟩ [] := by
  have owner : isLocalUserId localOwnerUserId = true := by decide
  have person : localOwnerUserId ≠ userId := by
    rintro rfl
    revert agent
    decide
  -- Each write of something else keeps a channel that tells nothing.
  have writes : ∀ (room : Room) (input : AppendInput) (ts : Nat), IsOther userId input →
    Tells userId room.channel [] →
      Logged userId (Grows timely []) room [] →
        Tells userId (room.writeEvent ids input ts none).1.channel []
        ∧ Logged userId (Grows timely []) (room.writeEvent ids input ts none).1 [] := by
    intro room input ts isOther tells logged
    obtain ⟨tidy, nothing, legible⟩ := @quiet_other userId ids room input isOther ts
    rcases tells_writeEvent tells logged none tidy legible (by rw [nothing]; nofun)
      with ⟨-, tells', logged'⟩ | ⟨stored, -, -, same, tells', logged'⟩
    · exact ⟨tells', logged'⟩
    · rw [same, nothing] at tells' logged'
      exact ⟨tells', logged' _⟩
  have isOther : ∀ type content, ¬ (type = .member ∧ userOf content = userId) →
    IsOther userId ⟨type, localOwnerUserId, none, content⟩ :=
    fun type content another => ⟨owner, another, nofun⟩
  have empty : Tells userId (makeChannel roomId) [] := ⟨rfl, fun txnId _ => ⟨nofun, nofun⟩⟩
  have emptyLog : Logged userId (Grows timely []) ⟨[], makeChannel roomId, drawn⟩ [] :=
    ⟨fun _ _ => ⟨rfl, fun txnId _ => ⟨nofun, nofun⟩⟩, fun _ _ => Nat.le_refl 0, fun _ _ =>
      rfl, .inl rfl⟩
  have created :
    Tells userId
    (createChannel ids roomId name ownerUsername operationId drawn ts ts' none none).channel []
      ∧ Logged userId (Grows timely [])
        (createChannel ids roomId name ownerUsername operationId drawn ts ts' none none) []
      ∧ (createChannel ids roomId name ownerUsername operationId drawn ts ts' none
        none).channel.roomId = roomId := by
    unfold createChannel
    simp only
    split
    · rename_i room first
      have same : _ = room := congrArg Prod.fst first
      rw [← same]
      obtain ⟨tells, logged⟩ := writes _ _ ts (isOther .create _ (by simp)) empty emptyLog
      exact ⟨tells, logged, roomId_writeEvent _ _ _ _⟩
    · rename_i room stored first
      have same : _ = room := congrArg Prod.fst first
      rw [← same]
      obtain ⟨tells, logged⟩ := writes _ _ ts (isOther .create _ (by simp)) empty emptyLog
      obtain ⟨tells', logged'⟩ :=
        writes _ ⟨.member, localOwnerUserId, none, [(lit "user", .string localOwnerUserId),
        (lit "membership", .string (lit "join")), (lit "displayname", .string ownerUsername),
          (lit "kind", .string (lit "human"))]⟩ ts'
        (isOther .member _ fun member => person member.2) tells logged
      exact ⟨tells', logged', by rw [roomId_writeEvent, roomId_writeEvent]; rfl⟩
  refine ⟨.created _ _ _ _ _ _ _ none none, ?_, created.1, created.2.1,
    ⟨nofun, List.nodup_nil, List.nodup_nil, nofun⟩, nofun, nofun,
    nofun, Nat.zero_le 1, fun _ _ is => (by cases is), nofun⟩
  rw [created.2.2]
  exact isRoom

/-- Identifiers are drawn, and never given back. -/
private theorem drawn_step (action : Action) :
    state.room.drawn ≤ (state.step userId ids action).room.drawn := by
  -- Only an append draws an identifier, and it draws one.
  cases action with
  | append ts fault =>
    -- The append writes one event, if its transaction is new.
    show _ ≤ (state.append ids ts fault).room.drawn
    rw [State.append]
    split
    · exact Nat.le_refl _
    · rename_i pending rest queue
      simp only
      rw [Room.append]
      split
      · exact Nat.le_refl _
      · rw [drawn_writeEvent]
        exact Nat.le_succ _
  | join =>
    -- A request only reads, and lines up what is to be appended.
    show _ ≤ (state.beginJoin userId).room.drawn
    rw [State.beginJoin]
    split
    · split
      · exact Nat.le_refl _
      · split
        · rw [State.announce]
          split
          · exact Nat.le_refl _
          · exact Nat.le_refl _
        · exact Nat.le_refl _
    · exact Nat.le_refl _
  | echo mode =>
    show _ ≤ (state.beginEcho userId mode).room.drawn
    rw [State.beginEcho]
    split
    · split
      · exact Nat.le_refl _
      · exact Nat.le_refl _
    · exact Nat.le_refl _
  | rename name =>
    show _ ≤ (state.rename userId name).room.drawn
    rw [State.rename]
    split
    · split
      · exact Nat.le_refl _
      · exact Nat.le_refl _
    · exact Nat.le_refl _
  | leave =>
    show _ ≤ (state.leave userId).room.drawn
    rw [State.leave]
    split
    · split
      · exact Nat.le_refl _
      · exact Nat.le_refl _
    · exact Nat.le_refl _
  | invite name harness =>
    show _ ≤ (state.invite userId name harness).room.drawn
    rw [State.invite]
    split
    · split
      · exact Nat.le_refl _
      · exact Nat.le_refl _
    · exact Nat.le_refl _
  | other input => exact Nat.le_refl _
  | resume =>
    show _ ≤ state.resume.room.drawn
    rw [State.resume]
    split
    · rw [State.announce]
      split
      · exact Nat.le_refl _
      · exact Nat.le_refl _
    · exact Nat.le_refl _
    · exact Nat.le_refl _
    · exact Nat.le_refl _
    · exact Nat.le_refl _
  | restart harnesses ownerName torn =>
    show _ ≤ (state.restart harnesses ownerName torn).room.drawn
    rw [State.restart]
    split
    · exact Nat.le_refl _
    · exact Nat.le_refl _

/-- Every action that is permitted keeps the state sound. -/
private theorem sound_step (agent : isLocalAgentUserId userId = true)
    (distinct : Function.Injective ids) (sound : Sound userId timely ids state ms) {action : Action}
    (meets : Meets userId state action) (inTime : timely → InTime userId state action)
    (shaped : ∀ draw < (state.step userId ids action).room.drawn,
      isLocalEventId (ids draw) = true) :
    ∃ ms', Sound userId timely ids (state.step userId ids action) ms' := by
  cases action with
  | join => exact ⟨ms, sound_beginJoin agent distinct sound meets⟩
  | echo mode => exact ⟨ms, sound_beginEcho agent distinct sound meets mode⟩
  | rename name => exact ⟨ms, sound_rename agent distinct sound name⟩
  | leave => exact ⟨ms, sound_leave agent distinct sound⟩
  | invite name harness => exact ⟨ms, sound_invite agent distinct sound name harness⟩
  | other input =>
    exact ⟨ms, sound.enqueue (.other meets) fun _ writes => meets.2.1 ⟨writes.1, writes.2.1⟩⟩
  | append ts fault =>
    exact sound_append distinct sound fault inTime (fun drew => shaped _ drew) meets.1 meets.2
  | resume => exact ⟨ms, sound_resume sound⟩
  | restart harnesses ownerName torn => exact sound_restart sound harnesses ownerName torn

/-- What holds in every state. -/
theorem Reached.sound (agent : isLocalAgentUserId userId = true) (distinct : Function.Injective ids)
    (reached : Reached userId ids state)
    (shaped : ∀ draw < state.room.drawn, isLocalEventId (ids draw) = true) :
    ∃ ms, Sound userId False ids state ms := by
  induction reached with
  | start roomId name ownerUsername operationId drawn ts ts' isRoom =>
    exact ⟨[], sound_start agent _ _ _ _ _ _ _ isRoom⟩
  | step action _ meets ih =>
    obtain ⟨ms, sound⟩ := ih fun draw drew =>
      shaped draw (Nat.lt_of_lt_of_le drew (drawn_step action))
    exact sound_step agent distinct sound meets False.elim shaped

/-- What holds in every state, when joins are written in time. -/
theorem Timely.sound (agent : isLocalAgentUserId userId = true) (distinct : Function.Injective ids)
    (reached : Timely userId ids state)
    (shaped : ∀ draw < state.room.drawn, isLocalEventId (ids draw) = true) :
    ∃ ms, Sound userId True ids state ms := by
  induction reached with
  | start roomId name ownerUsername operationId drawn ts ts' isRoom =>
    exact ⟨[], sound_start agent _ _ _ _ _ _ _ isRoom⟩
  | step action _ meets inTime ih =>
    obtain ⟨ms, sound⟩ := ih fun draw drew =>
      shaped draw (Nat.lt_of_lt_of_le drew (drawn_step action))
    exact sound_step agent distinct sound meets (fun _ => inTime) shaped

end Khala.Announce
