import Khala.Agent.JoinAnnouncement
import Khala.Agent.LocalRuns

/-! What a log tells of an agent's joins, apart from all else in it, and that reading a log again
tells the same. -/

namespace Khala.Announce

open Js Decode Local

/-- What one event tells: a membership of the agent, or an announcement of a join. -/
inductive Mark
  | member (eventId displayName membership : Text)
  | announcement (txnId : Text) (content : Members)

def Mark.eventId : Mark → Option Text
  | .member eventId _ _ => some eventId
  | .announcement _ _ => none

def Mark.txnId : Mark → Option Text
  | .member _ _ _ => none
  | .announcement txnId _ => some txnId

/-- A transaction that announces a join. -/
def IsJoinTxn (txnId : Text) : Prop := lit "local.join." <+: txnId

instance (txnId : Text) : Decidable (IsJoinTxn txnId) := inferInstanceAs (Decidable (_ <+: _))

variable (userId : Text)

def mark (event : LocalEvent) : Option Mark :=
  if event.isMemberOf userId then
    some (.member event.eventId ((textField event.content (lit "displayname")).getD [])
      ((textField event.content (lit "membership")).getD []))
  else if event.type = .channelEvent ∧ event.sender = localOwnerUserId then
    (event.txnId.filter fun txnId => IsJoinTxn txnId).map fun txnId =>
      .announcement txnId event.content
  else none

/-- What the events tell, in their order. -/
def marks (events : List LocalEvent) : List Mark := events.filterMap (mark userId)

/-- One more event makes at most one more mark. -/
theorem marks_concat (events : List LocalEvent) (event : LocalEvent) :
    marks userId (events ++ [event]) = marks userId events ++ (mark userId event).toList := by
  rw [marks, List.filterMap_append, marks]
  congr 1

/-! ## The index of transactions -/

/-- The sender is a user of the channel, and the owner's transactions for joins are channel events.
-/
structure Tidy (event : LocalEvent) : Prop where
  sender : isLocalUserId event.sender = true
  announces : event.sender = localOwnerUserId → ∀ txnId ∈ event.txnId, IsJoinTxn txnId →
    event.type = .channelEvent

/-- The channel tells this, and finds the transactions of the announcements. -/
structure Tells (channel : Channel) (ms : List Mark) : Prop where
  marks : marks userId channel.events = ms
  txns : ∀ txnId, IsJoinTxn txnId →
    ((channel.byTxn.get (txnKey localOwnerUserId txnId)).isSome ↔ txnId ∈ ms.filterMap Mark.txnId)

variable {userId}

/-- A user's identifier has no zero in it, so that it ends where the transaction's key begins. -/
private theorem txnKey_injective {sender sender' txnId txnId' : Text}
    (shaped : isLocalUserId sender = true) (shaped' : isLocalUserId sender' = true)
    (same : txnKey sender txnId = txnKey sender' txnId') :
    sender = sender' ∧ txnId = txnId' := by
  -- An identifier of a user has no zero unit, so the zero between the parts shows where it ends.
  have whole : ∀ {s : Text}, isLocalUserId s = true → (0 : CodeUnit) ∉ s := fun shaped inside => by
    have := ((plain_user shaped).1 0 inside).1
    rw [UInt16.toNat_zero] at this
    omega
  -- Two texts cut at their first zero agree in both parts.
  have split : ∀ {s s' t t' : Text}, (0 : CodeUnit) ∉ s → (0 : CodeUnit) ∉ s' →
    s ++ 0 :: t = s' ++ 0 :: t' → s = s' ∧ t = t' := by
    intro s
    induction s with
    | nil =>
      intro s' t t' _ free same
      cases s' with
      | nil => exact ⟨rfl, (List.cons.inj same).2⟩
      | cons u rest =>
        rw [List.nil_append, List.cons_append] at same
        exact absurd ((List.cons.inj same).1 ▸ List.mem_cons_self) free
    | cons u rest ih =>
      intro s' t t' free free' same
      cases s' with
      | nil =>
        rw [List.nil_append, List.cons_append] at same
        exact absurd ((List.cons.inj same).1 ▸ List.mem_cons_self) free
      | cons u' rest' =>
        rw [List.cons_append, List.cons_append] at same
        obtain ⟨first, later⟩ := List.cons.inj same
        obtain ⟨front, back⟩ := ih (fun inside => free (List.mem_cons_of_mem _ inside))
          (fun inside => free' (List.mem_cons_of_mem _ inside)) later
        exact ⟨by rw [first, front], back⟩
  exact split (whole shaped) (whole shaped') same

/-- An event is indexed under its transaction, if it has one. -/
theorem byTxn_indexEvent (channel : Channel) (event : LocalEvent) :
    (channel.indexEvent event).byTxn = match event.txnId with
      | some txnId => channel.byTxn.set (txnKey event.sender txnId) event
      | none => channel.byTxn := by
  unfold Channel.indexEvent
  cases event.type <;> rfl

/-- Of the owner's transactions for joins, exactly the one of an announcement is told. -/
private theorem txnId_mark {event : LocalEvent} (tidy : Tidy event) {txnId : Text}
    (joins : IsJoinTxn txnId) :
    txnId ∈ (mark userId event).toList.filterMap Mark.txnId ↔ event.sender = localOwnerUserId
      ∧ event.txnId = some txnId := by
  -- A mark tells a transaction when it is there and names one.
  have told : ∀ found : Option Mark, txnId ∈ found.toList.filterMap Mark.txnId
    ↔ found.bind Mark.txnId = some txnId := by
    intro found
    cases found with
    | none => simp
    | some m => cases named : m.txnId <;> simp [named, eq_comm]
  rw [told, mark]
  -- A member event tells none; an announcement tells its own, when it is that of a join.
  by_cases about : event.isMemberOf userId = true
  · rw [if_pos about]
    constructor
    · nofun
    · rintro ⟨owner, txn⟩
      -- A member event with such a transaction by the owner is ruled out.
      rw [LocalEvent.isMemberOf, tidy.announces owner txnId txn joins] at about
      cases about
  · rw [if_neg about]
    -- Any other event: the transaction is told when the owner announces under it.
    constructor
    · intro found
      split at found
      · rename_i announces
        cases txn : event.txnId with
        | none =>
          rw [txn] at found
          cases found
        | some other =>
          rw [txn] at found
          by_cases joins' : IsJoinTxn other
          · simp only [Option.filter_some, joins', decide_true, if_true, Option.map_some,
              Option.bind_some, Mark.txnId] at found
            exact ⟨announces.2, found⟩
          · simp [Option.filter_some, joins'] at found
      · cases found
    · rintro ⟨owner, txn⟩
      rw [if_pos ⟨tidy.announces owner txnId txn joins, owner⟩, txn]
      simp [Option.filter_some, joins, Mark.txnId]

/-- A channel with one more event tells one more mark. -/
theorem Tells.indexEvent {channel : Channel} {ms : List Mark} (tells : Tells userId channel ms)
    {event : LocalEvent} (tidy : Tidy event) :
    Tells userId (channel.indexEvent event) (ms ++ (mark userId event).toList) := by
  -- One event more adds its mark, and its transaction to those known.
  refine ⟨by rw [events_indexEvent, marks_concat, tells.marks], fun txnId joins => ?_⟩
  rw [byTxn_indexEvent, List.filterMap_append, List.mem_append, txnId_mark tidy joins,
    ← tells.txns txnId joins]
  cases txn : event.txnId with
  | none => simp
  | some other =>
    simp only [Map.get_set]
    -- A key that is already there is that of the same sender and transaction.
    by_cases same : txnKey localOwnerUserId txnId = txnKey event.sender other
    · obtain ⟨owner, rfl⟩ := txnKey_injective (by decide) tidy.sender same
      simp [owner]
    -- Any other key leaves what is known of this transaction as it was.
    · have differs : ¬ (event.sender = localOwnerUserId ∧ some other = some txnId) := by
        rintro ⟨owner, txn⟩
        cases txn
        exact same (by rw [owner])
      rw [if_neg same, or_iff_left differs]

/-! ## Lines -/

/-- What a harness is added to, and what one is taken from, tells the same otherwise. -/
private theorem textField_append_harness (content : Members) (value : Json) {key : Text}
    (other : key ≠ lit "harness") :
    textField (content ++ [(lit "harness", value)]) key = textField content key := by
  have last : ((lit "harness", value) : Text × Json).1 ≠ key := fun same => other same.symm
  have found : lookup (content ++ [(lit "harness", value)]) key = lookup content key := by
    rw [lookup, List.find?_append, lookup]
    simp [last]
  rw [textField, found, textField]

/-- A field other than the harness stays when the harness is removed. -/
private theorem textField_removeField (content : Members) {key : Text}
    (other : key ≠ lit "harness") :
    textField (removeField content (lit "harness")) key = textField content key := by
  have found : lookup (removeField content (lit "harness")) key = lookup content key := by
    rw [lookup, removeField, List.find?_filter, lookup]
    congr 2
    funext member
    by_cases same : member.1 = key
    · simp [same, other]
    · simp [same]
  rw [textField, found, textField]

/-- A mark hangs on the three fields of a membership event's content, and on all of another event's.
-/
private theorem mark_congr {event event' : LocalEvent} (type : event'.type = event.type)
    (eventId : event'.eventId = event.eventId) (sender : event'.sender = event.sender)
    (txnId : event'.txnId = event.txnId)
    (member : event.type = .member → ∀ key ∈ [lit "user", lit "membership", lit "displayname"],
      textField event'.content key = textField event.content key)
    (other : event.type ≠ .member → event'.content = event.content) :
    mark userId event' = mark userId event := by
  by_cases isMember : event.type = .member
  · have fields := member isMember
    have user := fields (lit "user") List.mem_cons_self
    have membership := fields (lit "membership") (by decide)
    have displayname := fields (lit "displayname") (by decide)
    rw [mark, mark, LocalEvent.isMemberOf, LocalEvent.isMemberOf, userOf, userOf, type, eventId,
      sender, txnId, user,
      membership, displayname, isMember]
    simp
  · rw [mark, mark, LocalEvent.isMemberOf, LocalEvent.isMemberOf, type, eventId, sender, txnId,
      other isMember]

/-- A mark does not look at the harness. -/
theorem mark_withHarness (harnesses : Map Text Text) (event : LocalEvent) :
    mark userId (withHarness harnesses event) = mark userId event := by
  unfold withHarness
  split
  · rename_i isMember _ _
    refine @mark_congr userId event _ rfl rfl rfl rfl (fun _ key among => ?_) fun other =>
      absurd isMember other
    have other : key ≠ lit "harness" := by
      rintro rfl
      revert among
      decide
    exact textField_append_harness _ _ other
  · rfl

variable (userId) in
/-- The event's line tells what the event tells when it is read, and nothing when it is not. -/
structure Legible (event : LocalEvent) : Prop where
  tidy : Tidy event
  reads : (mark userId event).isSome = true →
    event.Framed ∧ readContent (.object event.content)
      (lit "content") event.type = .ok event.content

/-- Marks are made by the agent's own membership events and by join announcements. -/
theorem isSome_mark (event : LocalEvent) :
    (mark userId event).isSome = (event.isMemberOf userId
      || (event.type = .channelEvent && event.sender = localOwnerUserId && event.txnId.any
        fun txnId => IsJoinTxn txnId)) := by
  -- The two kinds of events that are marked are asked for one after the other.
  rw [mark]
  cases event.isMemberOf userId with
  | true => rfl
  | false =>
    by_cases announces : event.type = .channelEvent ∧ event.sender = localOwnerUserId
    -- An announcement is marked when its transaction is that of a join.
    · rw [if_neg Bool.false_ne_true, if_pos announces, decide_eq_true announces.1,
        decide_eq_true announces.2]
      cases txn : event.txnId with
      | none => rfl
      | some txnId =>
        by_cases joins : IsJoinTxn txnId
        · simp [Option.filter_some, joins]
        · simp [Option.filter_some, joins]
    -- Neither kind: there is no mark.
    · rw [if_neg Bool.false_ne_true, if_neg announces]
      rcases not_and_or.mp announces with other | other
      · simp [other]
      · simp [other]

/-- A tidy event stays so with its harness. -/
private theorem tidy_withHarness {event : LocalEvent} (tidy : Tidy event)
    (harnesses : Map Text Text) :
    Tidy (withHarness harnesses event) := by
  unfold withHarness
  split
  · exact ⟨tidy.sender, tidy.announces⟩
  · exact tidy

/-- The last number is that of the event indexed last. -/
private theorem lastSeq_indexEvent (channel : Channel) (event : LocalEvent) :
    (channel.indexEvent event).lastSeq = event.seq := by
  rw [Channel.lastSeq, events_indexEvent, List.getLast?_concat]
  rfl

/-- Reading the line of an event tells what the event tells. -/
private theorem tells_readLine {channel : Channel} {ms : List Mark}
    (tells : Tells userId channel ms) {event : LocalEvent} (legible : Legible userId event)
    (roomId : event.roomId = channel.roomId) (later : channel.lastSeq < event.seq) :
    Tells userId (channel.readLine event.toJson) (ms ++ (mark userId event).toList)
      ∧ (channel.readLine event.toJson).lastSeq ≤ event.seq
      ∧ (channel.readLine event.toJson).roomId = channel.roomId := by
  cases relevant : (mark userId event).isSome with
  | true =>
    -- The line is read for what it says.
    obtain ⟨framed, reads⟩ := legible.reads relevant
    have decoded := decodeLocalEvent_toJson framed reads
    have told : mark userId (withHarness channel.harnesses { event with previousContent := none })
      = mark userId event :=
      mark_withHarness channel.harnesses { event with previousContent := none }
    have tidy : Tidy { event with previousContent := none } :=
      ⟨legible.tidy.sender, legible.tidy.announces⟩
    -- The event is about the agent, and its mark comes last.
    have added := tells.indexEvent (tidy_withHarness tidy channel.harnesses)
    rw [told] at added
    have taken : ¬ (event.roomId ≠ channel.roomId ∨ event.seq ≤ channel.lastSeq) := by
      rintro (other | early)
      · exact other roomId
      · omega
    rw [Channel.readLine, decoded]
    simp only [if_neg taken]
    refine ⟨added, ?_, roomId_indexEvent _ _⟩
    rw [lastSeq_indexEvent, (withHarness_keeps _ _).1]
  | false =>
    -- An event that is not about the agent adds no mark.
    have nothing : mark userId event = none :=
      Option.not_isSome_iff_eq_none.mp (by rw [relevant]; exact Bool.false_ne_true)
    rw [nothing, Option.toList_none, List.append_nil]
    have skipped : Tells userId channel ms ∧ channel.lastSeq ≤ event.seq
      ∧ channel.roomId = channel.roomId :=
      ⟨tells, Nat.le_of_lt later, rfl⟩
    rw [Channel.readLine]
    cases read : decodeLocalEvent event.toJson with
    | error _ => exact skipped
    | ok decoded =>
      simp only
      split
      · exact skipped
      · -- What is read instead is no more about the agent than what was written.
        obtain ⟨seq, type, sender, txnId, path, content⟩ := decodeLocalEvent_keeps read
        have user : event.isMemberOf userId = decoded.isMemberOf userId := by
          rw [LocalEvent.isMemberOf, LocalEvent.isMemberOf, type]
          by_cases isMember : event.type = .member
          · rw [isMember] at content
            rw [userOf, userOf, user_readMemberContent content]
          · rw [decide_eq_false isMember, Bool.false_and, Bool.false_and]
        have nothing' : mark userId (withHarness channel.harnesses decoded) = none := by
          rw [mark_withHarness, ← Option.not_isSome_iff_eq_none, isSome_mark, ← user, type, sender,
            txnId, ← isSome_mark, relevant]
          exact Bool.false_ne_true
        have tidy : Tidy (withHarness channel.harnesses decoded) := by
          refine tidy_withHarness ⟨?_, ?_⟩ _
          · rw [sender]
            exact legible.tidy.sender
          · rw [sender, txnId, type]
            exact legible.tidy.announces
        have added := tells.indexEvent tidy
        rw [nothing', Option.toList_none, List.append_nil] at added
        refine ⟨added, ?_, roomId_indexEvent _ _⟩
        rw [lastSeq_indexEvent, (withHarness_keeps _ _).1, seq]

/-! ## Writing and reading again -/

/-- The channel as it is read from lines again. -/
def reread (roomId : Text) (harnesses : Map Text Text) (validLines : Option Nat)
    (lines : List Json) : Channel :=
  lines.foldl Channel.readLine { makeChannel roomId with harnesses, validLines }

variable (userId) in
/-- The lines that the next write keeps tell what the channel tells; what is there beside them tells
what may be told next. -/
structure Logged (fits : Mark → Prop) (room : Room) (ms : List Mark) : Prop where
  told : ∀ harnesses validLines,
    Tells userId (reread room.channel.roomId harnesses validLines room.keptLines) ms
  early : ∀ harnesses validLines,
    (reread room.channel.roomId harnesses validLines room.keptLines).lastSeq ≤ room.channel.lastSeq
  roomId : ∀ harnesses validLines,
    (reread room.channel.roomId harnesses validLines room.keptLines).roomId = room.channel.roomId
  beside : room.lines = room.keptLines ∨ ∃ event, room.lines = room.keptLines ++ [event.toJson]
    ∧ Legible userId event
    ∧ event.roomId = room.channel.roomId ∧ room.channel.lastSeq < event.seq
    ∧ ∀ m ∈ mark userId event, fits m

variable {fits : Mark → Prop} {room : Room} {ms : List Mark}

/-- A write that adds no line keeps what the lines tell. -/
private theorem Logged.same (logged : Logged userId fits room ms) {lines : List Json}
    {channel : Channel} {drawn : Nat}
    (kept : Room.keptLines ⟨lines, channel, drawn⟩ = room.keptLines)
    (events : channel.events = room.channel.events) (roomId : channel.roomId = room.channel.roomId)
    (beside : lines = room.keptLines ∨ ∃ event, lines = room.keptLines ++ [event.toJson]
      ∧ Legible userId event ∧ event.roomId = room.channel.roomId
      ∧ room.channel.lastSeq < event.seq ∧ ∀ m ∈ mark userId event, fits m) :
    Logged userId fits ⟨lines, channel, drawn⟩ ms := by
  have lastSeq :
    channel.lastSeq = room.channel.lastSeq := by rw [Channel.lastSeq, events, Channel.lastSeq]
  refine ⟨?_, ?_, ?_, ?_⟩
  · rw [kept, roomId]
    exact logged.told
  · rw [kept, roomId, lastSeq]
    exact logged.early
  · rw [kept, roomId]
    exact logged.roomId
  · rw [kept, roomId, lastSeq]
    exact beside

/-- The event that an append makes, with the content it was given. -/
def made (ids : Nat → Text) (room : Room) (input : AppendInput) (ts : Nat) : LocalEvent :=
  ⟨room.channel.lastSeq + 1, ids room.drawn, room.channel.roomId, input.type, input.sender, ts,
    input.txnId, input.content, none⟩

/-- The contents in memory and on the line. -/
def placed (room : Room) (input : AppendInput) : Option (Members × Members × Map Text Text) :=
  if input.type = .member then placeHarness room.channel.harnesses input.content
  else some (input.content, input.content, room.channel.harnesses)

/-- Placing a harness leaves the other fields. -/
private theorem textField_placeHarness {harnesses harnesses' : Map Text Text}
    {content inMemory onLine : Members}
    (places : placeHarness harnesses content = some (inMemory, onLine, harnesses')) {key : Text}
    (other : key ≠ lit "harness") :
    textField inMemory key = textField content key
      ∧ textField onLine key = textField content key := by
  -- Only the harness is moved, so the branches differ in that field alone.
  unfold placeHarness at places
  simp only at places
  split at places
  -- A harness in the content is taken off the line and kept in the map.
  · split at places
    · split at places
      · cases places
        exact ⟨rfl, textField_removeField content other⟩
      · cases places
    · cases places
      exact ⟨rfl, rfl⟩
  · cases places
  -- Without one, the harness known of the user is put into memory.
  · split at places
    · cases places
      exact ⟨textField_append_harness content _ other, rfl⟩
    · cases places
      exact ⟨rfl, rfl⟩

/-- The event tells the same with the content in memory, and with the one on the line. -/
theorem mark_placed {input : AppendInput} {inMemory onLine : Members} {harnesses : Map Text Text}
    (places : placed room input = some (inMemory, onLine, harnesses)) (ids : Nat → Text)
    (ts : Nat) :
    mark userId { made ids room input ts with content := inMemory }
      = mark userId (made ids room input ts)
      ∧ mark userId { made ids room input ts with content := onLine }
        = mark userId (made ids room input ts) := by
  -- The fields that a mark reads are others than the harness.
  have apart : ∀ key ∈ [lit "user", lit "membership", lit "displayname"],
    key ≠ lit "harness" := by decide
  rw [placed] at places
  by_cases isMember : input.type = .member
  -- Of a member event the harness is placed, in memory and on the line.
  · rw [if_pos isMember] at places
    constructor
    · exact mark_congr rfl rfl rfl rfl (fun _ key among =>
        (textField_placeHarness places (apart key among)).1)
        fun other => absurd isMember other
    · exact mark_congr rfl rfl rfl rfl (fun _ key among =>
        (textField_placeHarness places (apart key among)).2)
        fun other => absurd isMember other
  -- Any other event is taken as it is.
  · rw [if_neg isMember] at places
    cases places
    exact ⟨rfl, rfl⟩

/-- What a channel tells is in its events and their transactions. -/
private theorem Tells.congr {channel channel' : Channel} (tells : Tells userId channel ms)
    (events : channel'.events = channel.events) (byTxn : channel'.byTxn = channel.byTxn) :
    Tells userId channel' ms :=
  ⟨by rw [events, tells.marks], fun txnId joins => by rw [byTxn]; exact tells.txns txnId joins⟩

/-- Of a whole log all lines are kept. -/
private theorem keptLines_of_none {room : Room} (whole : room.channel.validLines = none) :
    room.keptLines = room.lines := by
  rw [Room.keptLines, whole]

/-- When the next write keeps all of the lines, they are read again for what is told. -/
private theorem logged_of_whole {room : Room} {ms : List Mark} (whole : room.keptLines = room.lines)
    (lines : ∀ harnesses validLines,
      Tells userId (reread room.channel.roomId harnesses validLines room.lines) ms
      ∧ (reread room.channel.roomId harnesses validLines room.lines).lastSeq ≤ room.channel.lastSeq
      ∧ (reread room.channel.roomId harnesses validLines room.lines).roomId = room.channel.roomId) :
    Logged userId fits room ms := by
  refine ⟨?_, ?_, ?_, .inl whole.symm⟩
  · rw [whole]
    exact fun harnesses validLines => (lines harnesses validLines).1
  · rw [whole]
    exact fun harnesses validLines => (lines harnesses validLines).2.1
  · rw [whole]
    exact fun harnesses validLines => (lines harnesses validLines).2.2

/-- What a write leaves: nothing is told, or what the event tells. -/
theorem tells_writeEvent {ids : Nat → Text} (tells : Tells userId room.channel ms)
    (logged : Logged userId fits room ms) {input : AppendInput} {ts : Nat}
    (fault : Option WriteFault) (tidy : Tidy (made ids room input ts))
    (legible : ∀ inMemory onLine harnesses, placed room input = some (inMemory, onLine,
      harnesses) → Legible userId { made ids room input ts with content := onLine })
    (may : ∀ m ∈ mark userId (made ids room input ts), fits m) :
    ((room.writeEvent ids input ts fault).2 = none
      ∧ Tells userId (room.writeEvent ids input ts fault).1.channel ms
        ∧ Logged userId fits (room.writeEvent ids input ts fault).1 ms)
      ∨ ∃ stored, (room.writeEvent ids input ts fault).2 = some stored
        ∧ stored.eventId = ids room.drawn
        ∧ mark userId stored = mark userId (made ids room input ts)
        ∧ Tells userId (room.writeEvent ids input ts fault).1.channel
          (ms ++ (mark userId stored).toList)
        ∧ ∀ fits', Logged userId fits' (room.writeEvent ids input ts fault).1
          (ms ++ (mark userId stored).toList) := by
  -- As long as the lines and where they are cut stay, the same ones are kept.
  have kept : ∀ channel lines, channel.validLines = room.channel.validLines → lines = room.lines →
      Room.keptLines ⟨lines, channel, room.drawn + 1⟩ = room.keptLines := by
    intro channel lines validLines same
    rw [Room.keptLines, Room.keptLines, validLines, same]
  unfold Room.writeEvent
  simp only
  split
  -- Without a place for the harness nothing is written.
  · exact .inl ⟨rfl, tells, logged.same (kept _ _ rfl rfl) rfl rfl logged.beside⟩
  · rename_i inMemory onLine harnesses places
    obtain ⟨memory, line⟩ := @mark_placed userId room input inMemory onLine harnesses places ids ts
    have lineLegible := legible inMemory onLine harnesses places
    cases fault with
    -- A write that fails is not told of.
    | some fault =>
      left
      cases fault with
      | harness => exact ⟨rfl, tells, logged.same (kept _ _ rfl rfl) rfl rfl logged.beside⟩
      | truncate =>
        exact ⟨rfl, tells.congr rfl rfl, logged.same (kept _ _ rfl rfl) rfl rfl logged.beside⟩
      | open_ => exact ⟨rfl, tells.congr rfl rfl, logged.same rfl rfl rfl (.inl rfl)⟩
      | line landed =>
        -- The line is there or not; the next write cuts it off.
        have cut : ∀ more, Room.keptLines ⟨room.keptLines ++ more,
            { room.channel with harnesses, validLines := some room.keptLines.length },
              room.drawn + 1⟩ = room.keptLines :=
          fun more => List.take_left
        cases landed with
        | false => exact ⟨rfl, tells.congr rfl rfl, logged.same (cut _) rfl rfl (.inl (by simp))⟩
        | true =>
          refine ⟨rfl, tells.congr rfl rfl,
            logged.same (cut _) rfl rfl (.inr ⟨_, rfl, lineLegible, rfl, Nat.lt_succ_self _, ?_⟩)⟩
          intro m told
          have told' : m ∈ mark userId { made ids room input ts with content := onLine } := told
          rw [line] at told'
          exact may m told'
    | none =>
      -- A write that succeeds adds its mark, in memory as on the disk.
      right
      dsimp only
      have tidyStored : Tidy { made ids room input ts with content := inMemory } :=
        ⟨tidy.sender, tidy.announces⟩
      have unindexed : Tells userId { room.channel with harnesses, validLines := none } ms :=
        tells.congr rfl rfl
      have stored := unindexed.indexEvent tidyStored
      -- The lines are read again with the new one behind them.
      have lines : ∀ harnesses' validLines',
        Tells userId (reread room.channel.roomId harnesses' validLines'
            (room.keptLines ++ [{ made ids room input ts with content := onLine }.toJson]))
            (ms ++ (mark userId { made ids room input ts with content := inMemory }).toList)
          ∧ (reread room.channel.roomId harnesses' validLines'
            (room.keptLines ++ [{ made ids room input ts with content := onLine }.toJson])).lastSeq
              ≤ room.channel.lastSeq + 1
          ∧ (reread room.channel.roomId harnesses' validLines'
            (room.keptLines ++ [{ made ids room input ts with content := onLine }.toJson])).roomId
              = room.channel.roomId := by
        intro harnesses' validLines'
        have early := logged.early harnesses' validLines'
        have roomId := logged.roomId harnesses' validLines'
        have read := tells_readLine (logged.told harnesses' validLines') lineLegible roomId.symm
          (Nat.lt_succ_of_le early)
        rw [line, ← memory, roomId] at read
        rw [reread, List.foldl_append]
        exact read
      refine ⟨{ made ids room input ts with content := inMemory }, rfl, rfl, memory, stored,
        fun fits' => ?_⟩
      apply logged_of_whole (keptLines_of_none (validLines_indexEvent _ _))
      intro harnesses' validLines'
      rw [roomId_indexEvent, lastSeq_indexEvent]
      exact lines harnesses' validLines'

/-- Which numbers are read does not hang on the harnesses. -/
private theorem lastSeq_readLines (lines : List Json) :
    ∀ channel channel' : Channel, channel.roomId = channel'.roomId →
    channel.lastSeq = channel'.lastSeq →
      (lines.foldl Channel.readLine channel).lastSeq
        = (lines.foldl Channel.readLine channel').lastSeq := by
  -- The induction is on the lines; each one moves the number in the same way in both channels.
  induction lines with
  | nil => exact fun _ _ _ same => same
  | cons line rest ih =>
    intro channel channel' roomId lastSeq
    rw [List.foldl_cons, List.foldl_cons]
    have next : (channel.readLine line).roomId = (channel'.readLine line).roomId
        ∧ (channel.readLine line).lastSeq = (channel'.readLine line).lastSeq := by
      unfold Channel.readLine
      -- A line that does not read moves nothing.
      cases decodeLocalEvent line with
      | error _ => exact ⟨roomId, lastSeq⟩
      | ok event =>
        simp only [roomId, lastSeq]
        -- A line out of order is skipped, and any other becomes the last event.
        split
        · exact ⟨roomId, lastSeq⟩
        · rw [roomId_indexEvent, roomId_indexEvent, lastSeq_indexEvent, lastSeq_indexEvent,
            (withHarness_keeps _ _).1,
            (withHarness_keeps _ _).1]
          exact ⟨roomId, rfl⟩
    exact ih _ _ next.1 next.2

/-- What all of the lines tell: what was told, and perhaps what a failed write has left beside it.
-/
private theorem tells_lines (logged : Logged userId fits room ms) :
    ∃ ms', (ms' = ms ∨ ∃ m, fits m ∧ ms' = ms ++ [m]) ∧ ∀ harnesses validLines,
      Tells userId (reread room.channel.roomId harnesses validLines room.lines) ms'
        ∧ (reread room.channel.roomId harnesses validLines room.lines).roomId
          = room.channel.roomId := by
  -- The log holds the lines told of, or one more that was written and not told.
  rcases logged.beside with same | ⟨event, same, legible, roomId, later, may⟩
  · rw [same]
    exact ⟨ms, .inl rfl, fun harnesses validLines =>
      ⟨logged.told harnesses validLines, logged.roomId harnesses validLines⟩⟩
  -- That line is read like the others, so its mark comes last.
  · refine ⟨ms ++ (mark userId event).toList, ?_, fun harnesses validLines => ?_⟩
    · cases told : mark userId event with
      | none => exact .inl (List.append_nil ms)
      | some m => exact .inr ⟨m, may m told, rfl⟩
    -- It is later than what was read before, so it is not skipped.
    · have early := logged.early harnesses validLines
      have sameRoom := logged.roomId harnesses validLines
      obtain ⟨tells, -, roomId'⟩ :=
        tells_readLine (logged.told harnesses validLines) legible (roomId.trans sameRoom.symm)
        (by omega)
      rw [same, reread, List.foldl_append]
      exact ⟨tells, roomId'.trans sameRoom⟩

/-- A restart finds what was told, and perhaps what a failed write has left beside it. -/
theorem tells_openChannel (logged : Logged userId fits room ms) {harnesses : Map Text Text}
    {ownerName : Option Text} {torn : Bool} {channel : Channel}
    (opens : openChannel room.channel.roomId room.lines harnesses ownerName torn = some channel) :
    ∃ ms', (ms' = ms ∨ ∃ m, fits m ∧ ms' = ms ++ [m]) ∧ channel.roomId = room.channel.roomId
      ∧ Tells userId channel ms'
      ∧ ∀ fits', Logged userId fits' { room with channel } ms' := by
  simp only [openChannel, Option.ite_none_right_eq_some, Option.some.injEq] at opens
  obtain ⟨-, opens⟩ := opens
  -- What is read back from the lines are the marks, with at most one more.
  obtain ⟨ms', told, found⟩ := tells_lines logged
  obtain ⟨tells, roomId⟩ := found harnesses (if torn then some room.lines.length else none)
  have sameRoom : channel.roomId = room.channel.roomId := by
    rw [← opens]
    exact roomId
  -- No line is dropped by the opening, except for a torn one.
  have kept : Room.keptLines { room with channel } = room.lines := by
    have validLines : channel.validLines = if torn then some room.lines.length else none := by
      rw [← opens]
      exact validLines_readLines _ _
    rw [Room.keptLines, validLines]
    cases torn with
    | true => exact List.take_length
    | false => rfl
  refine ⟨ms', told, sameRoom, ?_, fun fits' => logged_of_whole kept fun harnesses' validLines' => ?_⟩
  · rw [← opens]
    exact tells.congr rfl rfl
  -- The last number is the same whatever the opening knows of harnesses.
  · have same := lastSeq_readLines room.lines { makeChannel room.channel.roomId with harnesses := harnesses', validLines := validLines' }
      { makeChannel room.channel.roomId with harnesses, validLines := if torn then some room.lines.length else none } rfl rfl
    have early : (reread room.channel.roomId harnesses' validLines' room.lines).lastSeq ≤ channel.lastSeq := by
      rw [reread, same, ← opens]
      exact Nat.le_refl _
    rw [sameRoom]
    exact ⟨(found harnesses' validLines').1, early, (found harnesses' validLines').2⟩

end Khala.Announce
