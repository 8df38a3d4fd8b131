import Khala.Agent.LocalRuns
import Khala.Agent.StoredEvents

/-! What the lines of a room keep of the events that calls were answered with, through writes that
fail and through restarts. -/

namespace Khala.Local

open Js Decode

/-! ## Runs with their answers -/

variable (ids : Nat → Text) in
/-- The states of a room, with the events that calls were answered with so far; the first are those
of its creation. -/
inductive Room.Answered : Room → List LocalEvent → Prop
  /-- The room is created, with what its two first lines came to. -/
  | created (roomId name ownerUsername : Text) (operationId : Option Text) (drawn ts ts' : Nat)
      (fault fault' : Option WriteFault) :
    Answered (createChannel ids roomId name ownerUsername operationId drawn ts ts' fault fault')
      (createChannel ids roomId name ownerUsername operationId drawn ts ts' fault
        fault').channel.events
  /-- An append, answered with an event or with none. -/
  | append {room : Room} {answers : List LocalEvent} (eventInput : AppendInput) (ts : Nat)
    (fault : Option WriteFault) :
    Answered room answers →
      Answered (room.append ids eventInput ts fault).1
        (answers ++ (room.append ids eventInput ts fault).2.toList)
  /-- The owner is renamed, which may append a membership event. -/
  | setOwnerChannelName {room : Room} {answers : List LocalEvent} (ownerUsername : Text)
    (name : Option Text) (ts : Nat)
      (fault : Option WriteFault) :
    Answered room answers → Answered (room.setOwnerChannelName ids ownerUsername name ts fault).1
      (answers ++ (room.setOwnerChannelName ids ownerUsername name ts fault).2.toList)
  /-- The store is opened again, with a torn last line or without. -/
  | opened {room : Room} {answers : List LocalEvent} {channel : Channel}
    (harnesses : Map Text Text) (ownerName : Option Text)
      (torn : Bool) :
    Answered room answers → openChannel room.channel.roomId room.lines harnesses ownerName torn
      = some channel →
      Answered { room with channel } answers

variable {ids : Nat → Text}

/-! ## The ways in which a write ends -/

/-- The key that an event's transaction is found under. -/
def LocalEvent.txn (event : LocalEvent) : Option Text := event.txnId.map (txnKey event.sender)

/-- What a write makes of its input: the event in memory, and the event of the line. -/
structure Room.Makes (room : Room) (eventInput : AppendInput) (stored line : LocalEvent) :
    Prop where
  seq : line.seq = room.channel.lastSeq + 1
  roomId : line.roomId = room.channel.roomId
  txn : line.txn = eventInput.txnId.map (txnKey eventInput.sender)
  lasting : line.lasting = stored.lasting
  readable : stored.Readable → line.Readable

/-- The ways in which a write ends. -/
inductive Room.Ends (room : Room) (eventInput : AppendInput) : Room × Option LocalEvent → Prop
  /-- The write failed before it came to the log. -/
  | untouched (harnesses : Map Text Text) :
    Ends room eventInput (⟨room.lines, { room.channel with harnesses }, room.drawn + 1⟩, none)
  /-- What a failed write had left was cut off, and nothing was written. -/
  | unopened (harnesses : Map Text Text) :
    Ends room eventInput (⟨room.keptLines, { room.channel with harnesses, validLines := none },
      room.drawn + 1⟩, none)
  /-- The line did not land, and its place is remembered. -/
  | unwritten (harnesses : Map Text Text) :
    Ends room eventInput
      (⟨room.keptLines, { room.channel with harnesses, validLines := some room.keptLines.length },
        room.drawn + 1⟩, none)
  /-- The line landed though the write failed. -/
  | landed {stored line : LocalEvent} (harnesses : Map Text Text)
    (makes : room.Makes eventInput stored line) :
    Ends room eventInput (⟨room.keptLines ++ [line.toJson],
      { room.channel with harnesses, validLines := some room.keptLines.length }, room.drawn + 1⟩,
        none)
  /-- The line was written, and the event is answered. -/
  | written {stored line : LocalEvent} (harnesses : Map Text Text)
    (makes : room.Makes eventInput stored line) :
    Ends room eventInput (⟨room.keptLines ++ [line.toJson],
      { room.channel with harnesses, validLines := none }.indexEvent stored, room.drawn + 1⟩,
        some stored)

/-- A write ends in one of the ways that are named. -/
theorem Room.ends_writeEvent (room : Room) (eventInput : AppendInput) (ts : Nat)
    (fault : Option WriteFault) :
    room.Ends eventInput (room.writeEvent ids eventInput ts fault) := by
  -- What is placed does not depend on the fault, which then says how far the write came.
  unfold Room.writeEvent
  simp only
  split
  · exact .untouched room.channel.harnesses
  · rename_i inMemory onLine harnesses placed
    have makes : room.Makes eventInput
        ⟨room.channel.lastSeq + 1, ids room.drawn, room.channel.roomId, eventInput.type,
          eventInput.sender, ts, eventInput.txnId,
          inMemory, none⟩
        ⟨room.channel.lastSeq + 1, ids room.drawn, room.channel.roomId, eventInput.type,
          eventInput.sender, ts, eventInput.txnId,
          onLine, none⟩ := by
      split at placed
      · -- The harness of a membership is kept in a file of its own, and does not last.
        rename_i member
        refine ⟨rfl, rfl, rfl, ?_, ?_⟩
        · exact @lasting_placed room.channel.harnesses harnesses ⟨room.channel.lastSeq + 1,
            ids room.drawn, room.channel.roomId,
            eventInput.type, eventInput.sender, ts, eventInput.txnId, eventInput.content,
              none⟩ inMemory onLine member placed
        · exact @readable_placed room.channel.harnesses harnesses ⟨room.channel.lastSeq + 1,
            ids room.drawn, room.channel.roomId,
            eventInput.type, eventInput.sender, ts, eventInput.txnId, eventInput.content,
              none⟩ inMemory onLine member placed
      · cases placed
        exact ⟨rfl, rfl, rfl, rfl, id⟩
    cases fault with
    | none => exact .written harnesses makes
    | some fault =>
      cases fault with
      | harness => exact .untouched room.channel.harnesses
      | truncate => exact .untouched harnesses
      | open_ => exact .unopened harnesses
      | line landed =>
        cases landed with
        | false =>
          change room.Ends eventInput (⟨room.keptLines ++ [], _, _⟩, none)
          rw [List.append_nil]
          exact .unwritten harnesses
        | true => exact .landed harnesses makes

/-! ## What a channel holds of lines -/

/-- The channel holds the events of the lines that are read, finds each by its transaction, and
holds no others. -/
structure Channel.Holds (channel : Channel) (written : List LocalEvent) : Prop where
  ascending : Ascending channel.events
  last : ∀ event ∈ channel.events, event.seq ≤ channel.lastSeq
  txns : ∀ key event, channel.byTxn.get key = some event ↔ event ∈ channel.events
    ∧ event.txn = some key
  known : ∀ line ∈ written, line.Readable → ∃ event ∈ channel.events, event.lasting = line.lasting
  held : ∀ event ∈ channel.events, ∃ line ∈ written, line.lasting = event.lasting
    ∧ (event.Readable → line.Readable)

/-- A channel that was just made holds nothing. -/
theorem holds_makeChannel (roomId : Text) (harnesses : Map Text Text) (validLines : Option Nat) :
    { makeChannel roomId with harnesses, validLines }.Holds [] where
  ascending := List.Pairwise.nil
  last := fun event inside => by cases inside
  txns := fun key event => by simp [makeChannel]
  known := fun line inside => by cases inside
  held := fun event inside => by cases inside

/-- What a channel holds is in its events and their transactions. -/
theorem Channel.Holds.congr {channel channel' : Channel} {written : List LocalEvent}
    (holds : channel.Holds written) (events : channel'.events = channel.events)
    (byTxn : channel'.byTxn = channel.byTxn) : channel'.Holds written := by
  obtain ⟨ascending, last, txns, known, held⟩ := holds
  exact ⟨by rwa [events], by rwa [Channel.lastSeq, events], by rwa [events,
    byTxn], by rwa [events], by rwa [events]⟩

/-- What lasts of an event tells its number and its transaction. -/
private theorem lasting_eq {event event' : LocalEvent} (same : event.lasting = event'.lasting) :
    event.seq = event'.seq ∧ event.txn = event'.txn := by
  -- The number and the transaction are among what lasts of an event.
  have seq : event.lasting.seq = event'.lasting.seq := by rw [same]
  have sender : event.lasting.sender = event'.lasting.sender := by rw [same]
  have txnId : event.lasting.txnId = event'.lasting.txnId := by rw [same]
  change event.sender = event'.sender at sender
  change event.txnId = event'.txnId at txnId
  refine ⟨seq, ?_⟩
  rw [LocalEvent.txn, LocalEvent.txn, sender, txnId]

/-- A transaction is that of the event indexed last under it. -/
private theorem get_byTxn_indexEvent (channel : Channel) (event : LocalEvent) (key : Text) :
    (channel.indexEvent event).byTxn.get key = if event.txn = some key then some event
      else channel.byTxn.get key := by
  -- Indexing sets the key of the event's own transaction and leaves the others alone.
  rw [LocalEvent.txn]
  cases txn : event.txnId with
  | none =>
    have indexed : (channel.indexEvent event).byTxn = channel.byTxn := by
      unfold Channel.indexEvent
      simp only [txn]
      cases event.type <;> rfl
    rw [indexed]
    rfl
  | some txnId =>
    have indexed :
      (channel.indexEvent event).byTxn = channel.byTxn.set (txnKey event.sender txnId) event := by
      unfold Channel.indexEvent
      simp only [txn]
      cases event.type <;> rfl
    rw [indexed, Map.get_set]
    simp only [Option.map_some, Option.some.injEq]
    exact if_congr ⟨Eq.symm, Eq.symm⟩ rfl rfl

/-- One event more, with the next number and a transaction of its own. -/
theorem Channel.Holds.indexEvent {channel : Channel} {written : List LocalEvent}
    (holds : channel.Holds written) {stored line : LocalEvent}
    (later : channel.lastSeq < stored.seq)
    (fresh : ∀ event ∈ channel.events, ∀ key, event.txn = some key → stored.txn ≠ some key)
    (lasting : line.lasting = stored.lasting) (readable : stored.Readable → line.Readable) :
    (channel.indexEvent stored).Holds (written ++ [line]) where
  ascending := by
    -- The new event stands last, and its number is larger than all before.
    rw [events_indexEvent]
    refine List.pairwise_append.mpr ⟨holds.ascending, List.pairwise_singleton _ _,
      fun event inside other same => ?_⟩
    rw [List.mem_singleton.mp same]
    exact Nat.lt_of_le_of_lt (holds.last event inside) later
  last := by
    have lastSeq : (channel.indexEvent stored).lastSeq = stored.seq := by simp [Channel.lastSeq]
    rw [events_indexEvent, lastSeq]
    intro event inside
    rcases List.mem_append.mp inside with old | new
    · exact Nat.le_of_lt (Nat.lt_of_le_of_lt (holds.last event old) later)
    · rw [List.mem_singleton.mp new]
  txns := by
    intro key event
    rw [get_byTxn_indexEvent, events_indexEvent, List.mem_append, List.mem_singleton]
    by_cases own : stored.txn = some key
    · -- No other event has the key.
      rw [if_pos own, Option.some.injEq]
      constructor
      · rintro rfl
        exact ⟨.inr rfl, own⟩
      · rintro ⟨old | rfl, same⟩
        · exact absurd own (fresh event old key same)
        · rfl
    · rw [if_neg own, holds.txns key event]
      constructor
      · rintro ⟨inside, same⟩
        exact ⟨.inl inside, same⟩
      · rintro ⟨inside | rfl, same⟩
        · exact ⟨inside, same⟩
        · exact absurd same own
  known := by
    rw [events_indexEvent]
    intro other inside reads
    rcases List.mem_append.mp inside with old | new
    · obtain ⟨event, there, same⟩ := holds.known other old reads
      exact ⟨event, List.mem_append_left _ there, same⟩
    · rw [List.mem_singleton.mp new]
      exact ⟨stored, List.mem_append_right _ List.mem_cons_self, lasting.symm⟩
  held := by
    rw [events_indexEvent]
    intro event inside
    rcases List.mem_append.mp inside with old | new
    · obtain ⟨other, there, same⟩ := holds.held event old
      exact ⟨other, List.mem_append_left _ there, same⟩
    · rw [List.mem_singleton.mp new]
      exact ⟨line, List.mem_append_right _ List.mem_cons_self, lasting, readable⟩

/-! ## Reading the lines again -/

/-- Of two lines that are read, the later has the larger number and another transaction. -/
def InOrder (written : List LocalEvent) : Prop :=
  written.Pairwise fun earlier later => earlier.Readable → later.Readable →
    earlier.seq < later.seq ∧ ∀ key, earlier.txn = some key → later.txn ≠ some key

/-- What is known of a channel that lines have been read into. -/
private structure Reread (roomId : Text) (validLines : Option Nat) (written : List LocalEvent)
    (channel : Channel) : Prop where
  holds : channel.Holds written
  reads : ∀ event ∈ channel.events, ∃ line ∈ written, line.Readable ∧ line.lasting = event.lasting
  roomId : channel.roomId = roomId
  validLines : channel.validLines = validLines

/-- Indexing an event leaves the valid lines. -/
theorem validLines_indexed (channel : Channel) (event : LocalEvent) :
    (channel.indexEvent event).validLines = channel.validLines := by
  unfold Channel.indexEvent
  cases event.type <;> rfl

/-- Reading one more line of a log rereads one more event. -/
private theorem Reread.line {roomId : Text} {validLines : Option Nat} {written : List LocalEvent}
    {channel : Channel} (reread : Reread roomId validLines written channel) {line : LocalEvent}
    (own : line.roomId = roomId) (order : InOrder (written ++ [line])) :
    Reread roomId validLines (written ++ [line]) (channel.readLine line.toJson) := by
  by_cases readable : line.Readable
  · obtain ⟨decoded, read⟩ := readable
    -- What is taken up is the event of the line, up to its harness.
    have lasting : line.lasting = (withHarness channel.harnesses decoded).lasting := by
      rw [lasting_withHarness, lasting_decoded read]
    obtain ⟨seq, txn⟩ := lasting_eq lasting
    obtain ⟨framed, -, same⟩ := decodeLocalEvent_inv read
    have room : decoded.roomId = channel.roomId := by rw [same, reread.roomId, own]
    -- Every event that was read stands on an earlier line, which the new line comes after.
    have before : ∀ event ∈ channel.events, event.seq < line.seq ∧ ∀ key, event.txn = some key →
      line.txn ≠ some key := by
      intro event inside
      obtain ⟨earlier, there, reads, same⟩ := reread.reads event inside
      obtain ⟨seq, txn⟩ := lasting_eq same
      rw [← seq, ← txn]
      exact (List.pairwise_append.mp order).2.2 earlier there line List.mem_cons_self reads
        ⟨decoded, read⟩
    have later : channel.lastSeq < line.seq := by
      rw [Channel.lastSeq]
      cases atEnd : channel.events.getLast? with
      | none => exact framed.seq.1
      | some last => exact (before last (List.mem_of_getLast? atEnd)).1
    have taken : ¬ (decoded.roomId ≠ channel.roomId ∨ decoded.seq ≤ channel.lastSeq) := by
      rintro (other | early)
      · exact other room
      · rw [same] at early
        exact absurd later (Nat.not_lt_of_le early)
    rw [Channel.readLine, read]
    simp only [if_neg taken]
    refine ⟨reread.holds.indexEvent (seq ▸ later) (fun event inside key there => ?_) lasting
      fun _ => ⟨decoded, read⟩, ?_, ?_, ?_⟩
    · rw [← txn]
      exact (before event inside).2 key there
    · rw [events_indexEvent]
      intro event inside
      rcases List.mem_append.mp inside with old | new
      · obtain ⟨earlier, there, reads⟩ := reread.reads event old
        exact ⟨earlier, List.mem_append_left _ there, reads⟩
      · rw [List.mem_singleton.mp new]
        exact ⟨line, List.mem_append_right _ List.mem_cons_self, ⟨decoded, read⟩, lasting⟩
    · rw [roomId_indexEvent, reread.roomId]
    · rw [validLines_indexed, reread.validLines]
  -- A line that cannot be read changes nothing.
  · have skipped : channel.readLine line.toJson = channel := by
      rw [Channel.readLine]
      cases read : decodeLocalEvent line.toJson with
      | error _ => rfl
      | ok decoded => exact absurd ⟨decoded, read⟩ readable
    rw [skipped]
    refine ⟨⟨reread.holds.ascending, reread.holds.last, reread.holds.txns,
      fun other inside reads => ?_, fun event inside => ?_⟩,
      fun event inside => ?_, reread.roomId, reread.validLines⟩
    · rcases List.mem_append.mp inside with old | new
      · exact reread.holds.known other old reads
      · exact absurd (List.mem_singleton.mp new ▸ reads) readable
    · obtain ⟨other, there, same⟩ := reread.holds.held event inside
      exact ⟨other, List.mem_append_left _ there, same⟩
    · obtain ⟨other, there, same⟩ := reread.reads event inside
      exact ⟨other, List.mem_append_left _ there, same⟩

/-- Lines that are in order are all read. -/
private theorem reread_lines {roomId : Text} (harnesses : Map Text Text) (validLines : Option Nat)
    {written : List LocalEvent} (own : ∀ line ∈ written, line.roomId = roomId)
    (order : InOrder written) :
    Reread roomId validLines written
      ((written.map (·.toJson)).foldl Channel.readLine { makeChannel roomId with harnesses,
                                                                                 validLines }) := by
  -- The lines are read from the first on, so the last one is read into what the others have left.
  induction written using List.reverseRecOn with
  | nil => exact ⟨holds_makeChannel roomId harnesses validLines, fun event inside =>
    (by cases inside), rfl, rfl⟩
  | append_singleton before line ih =>
    have read := ih (fun other inside => own other (List.mem_append_left _ inside))
      (List.pairwise_append.mp order).1
    rw [List.map_append, List.foldl_append]
    exact read.line (own line (List.mem_append_right _ List.mem_cons_self)) order

/-! ## Runs -/

/-- Of the events on the lines, those whose lines the next write keeps. -/
def Room.kept (room : Room) (written : List LocalEvent) : List LocalEvent :=
  match room.channel.validLines with
  | some kept => written.take kept
  | none => written

/-- The lines are the events, the channel holds those that stay, and what was answered with stays.
-/
structure Room.Keeps (room : Room) (written answers : List LocalEvent) : Prop where
  lines : room.lines = written.map (·.toJson)
  own : ∀ line ∈ written, line.roomId = room.channel.roomId
  order : InOrder written
  holds : room.channel.Holds (room.kept written)
  answers : ∀ event ∈ answers, event.Readable → ∃ line ∈ room.kept written, line.Readable
    ∧ line.lasting = event.lasting

variable {room : Room} {written answers : List LocalEvent}

/-- The lines that are kept stand in their order. -/
private theorem kept_sublist (room : Room) (written : List LocalEvent) :
    (room.kept written).Sublist written := by
  -- Either all lines stay or a first part of them does.
  unfold Room.kept
  cases room.channel.validLines with
  | none => exact .refl _
  | some kept => exact List.take_sublist _ _

/-- The kept lines are those of the kept events. -/
private theorem Room.Keeps.keptLines (keeps : room.Keeps written answers) :
    room.keptLines = (room.kept written).map (·.toJson) := by
  rw [Room.keptLines, Room.kept, keeps.lines]
  cases room.channel.validLines with
  | none => rfl
  | some kept => exact (List.map_take).symm

/-- The room with other lines after those that stay, and a channel with the same events. -/
private theorem Room.Keeps.remains (keeps : room.Keeps written answers) {lines : List Json}
    {channel : Channel} {drawn : Nat} {written' : List LocalEvent}
    (is : lines = written'.map (·.toJson))
    (own : ∀ line ∈ written', line.roomId = room.channel.roomId) (order : InOrder written')
    (stays : Room.kept ⟨lines, channel, drawn⟩ written' = room.kept written)
    (roomId : channel.roomId = room.channel.roomId) (events : channel.events = room.channel.events)
    (byTxn : channel.byTxn = room.channel.byTxn) :
    Room.Keeps ⟨lines, channel, drawn⟩ written' answers where
  lines := is
  own := by rwa [roomId]
  order := order
  holds := by
    rw [stays]
    exact keeps.holds.congr events byTxn
  answers := by
    rw [stays]
    exact keeps.answers

/-- Every way in which a write ends keeps what was answered with, and what the write answers with.
-/
theorem Room.Keeps.ends (keeps : room.Keeps written answers) {eventInput : AppendInput}
    (fresh : ∀ event ∈ room.channel.events, ∀ key, event.txn = some key →
      eventInput.txnId.map (txnKey eventInput.sender) ≠ some key)
    {room' : Room} {answer : Option LocalEvent} (ends : room.Ends eventInput (room', answer)) :
    ∃ written', room'.Keeps written' (answers ++ answer.toList) := by
  have own : ∀ line ∈ room.kept written, line.roomId = room.channel.roomId :=
    fun line inside => keeps.own line ((kept_sublist room written).subset inside)
  have order : InOrder (room.kept written) := keeps.order.sublist (kept_sublist room written)
  -- The line of a write comes after those that stay.
  have next : ∀ {stored line : LocalEvent}, room.Makes eventInput stored line →
    InOrder (room.kept written ++ [line])
      ∧ ∀ other ∈ room.kept written ++ [line], other.roomId = room.channel.roomId := by
    intro stored line makes
    refine ⟨List.pairwise_append.mpr ⟨order, List.pairwise_singleton _ _,
      fun earlier inside other same reads _ => ?_⟩, ?_⟩
    · obtain ⟨event, there, same'⟩ := keeps.holds.known earlier inside reads
      obtain ⟨seq, txn⟩ := lasting_eq same'
      rw [List.mem_singleton.mp same, ← seq, ← txn, makes.seq, makes.txn]
      exact ⟨Nat.lt_succ_of_le (keeps.holds.last event there), fresh event there⟩
    · intro other inside
      rcases List.mem_append.mp inside with old | new
      · exact own other old
      · rw [List.mem_singleton.mp new, makes.roomId]
  have whole : ∀ {line : LocalEvent},
    room.keptLines ++ [line.toJson] = (room.kept written ++ [line]).map (·.toJson) := by
    intro line
    rw [keeps.keptLines, List.map_append, List.map_singleton]
  have length :
    room.keptLines.length = (room.kept written).length := by rw [keeps.keptLines, List.length_map]
  cases ends with
  | untouched harnesses =>
    -- The log was not touched.
    rw [Option.toList_none, List.append_nil]
    exact ⟨written, keeps.remains keeps.lines keeps.own keeps.order rfl rfl rfl rfl⟩
  | unopened harnesses =>
    rw [Option.toList_none, List.append_nil]
    exact ⟨_, keeps.remains keeps.keptLines own order rfl rfl rfl rfl⟩
  | unwritten harnesses =>
    rw [Option.toList_none, List.append_nil]
    refine ⟨_, keeps.remains keeps.keptLines own order ?_ rfl rfl rfl⟩
    rw [Room.kept, length]
    exact List.take_length
  | landed harnesses makes =>
    -- The line is cut off by the next write, if the room is not opened again before.
    rw [Option.toList_none, List.append_nil]
    refine ⟨_, keeps.remains whole (next makes).2 (next makes).1 ?_ rfl rfl rfl⟩
    rw [Room.kept, length]
    exact List.take_left
  | @written stored line harnesses makes =>
    -- The channel takes up the new event, and from now on all lines stay.
    obtain ⟨seq, txn⟩ := lasting_eq makes.lasting
    have stays : Room.kept ⟨room.keptLines ++ [line.toJson],
        { room.channel with harnesses, validLines := none }.indexEvent stored, room.drawn + 1⟩
          (room.kept written ++ [line])
          = room.kept written ++ [line] := by
      rw [Room.kept, validLines_indexed]
    have former :
      ({ room.channel with harnesses, validLines := none } : Channel).Holds (room.kept written) :=
      keeps.holds.congr rfl rfl
    refine ⟨_, whole, ?_, (next makes).1, ?_, ?_⟩
    · rw [roomId_indexEvent]
      exact (next makes).2
    · rw [stays]
      refine former.indexEvent ?_ (fun event inside key there => ?_) makes.lasting makes.readable
      · rw [← seq, makes.seq]
        exact Nat.lt_succ_self _
      · rw [← txn, makes.txn]
        exact fresh event inside key there
    · rw [stays]
      intro event inside reads
      rcases List.mem_append.mp inside with old | new
      · obtain ⟨other, there, same⟩ := keeps.answers event old reads
        exact ⟨other, List.mem_append_left _ there, same⟩
      · obtain rfl : event = stored := by simpa using new
        exact ⟨line, List.mem_append_right _ List.mem_cons_self, makes.readable reads,
          makes.lasting⟩

/-- An append keeps what was answered, and its own answer. -/
theorem Room.Keeps.append (keeps : room.Keeps written answers) (eventInput : AppendInput) (ts : Nat)
    (fault : Option WriteFault) :
    ∃ written', (room.append ids eventInput ts fault).1.Keeps written'
      (answers ++ (room.append ids eventInput ts fault).2.toList) := by
  -- Where the transaction is known, nothing is written; where it is not, it is a fresh one.
  unfold Room.append
  cases found : eventInput.txnId.bind fun txnId =>
    room.channel.byTxn.get (txnKey eventInput.sender txnId) with
  | some existing =>
    -- The event that is found stands on a line that stays.
    obtain ⟨txnId, -, there⟩ := Option.bind_eq_some_iff.mp found
    obtain ⟨inside, -⟩ := (keeps.holds.txns _ existing).mp there
    refine ⟨written, keeps.lines, keeps.own, keeps.order, keeps.holds, fun event among reads => ?_⟩
    rcases List.mem_append.mp among with old | new
    · exact keeps.answers event old reads
    · obtain rfl : event = existing := by simpa using new
      obtain ⟨line, there, same, readable⟩ := keeps.holds.held event inside
      exact ⟨line, there, readable reads, same⟩
  | none =>
    refine keeps.ends (fun event inside key there same => ?_)
      (room.ends_writeEvent eventInput ts fault)
    obtain ⟨txnId, is, rfl⟩ := Option.map_eq_some_iff.mp same
    have known := (keeps.holds.txns _ event).mpr ⟨inside, there⟩
    rw [is, Option.bind_some, known] at found
    cases found

/-- An event without a transaction is written with no event looked for. -/
private theorem Room.Keeps.wrote (keeps : room.Keeps written answers) {eventInput : AppendInput}
    {ts : Nat} {fault : Option WriteFault} {room' : Room} {answer : Option LocalEvent}
    (writes : room.writeEvent ids eventInput ts fault = (room', answer))
    (none_ : eventInput.txnId = none) :
    ∃ written', room'.Keeps written' (answers ++ answer.toList) := by
  refine keeps.ends (fun event inside key there => ?_)
    (writes ▸ room.ends_writeEvent eventInput ts fault)
  rw [none_]
  simp

/-- The events of a channel may be taken as what was answered with. -/
private theorem Room.Keeps.all (keeps : room.Keeps written answers) :
    room.Keeps written room.channel.events := by
  -- What the channel holds was read from lines that stay.
  refine ⟨keeps.lines, keeps.own, keeps.order, keeps.holds, fun event inside reads => ?_⟩
  obtain ⟨line, there, same, readable⟩ := keeps.holds.held event inside
  exact ⟨line, there, readable reads, same⟩

/-- A created room keeps what its creation answered. -/
private theorem keeps_createChannel (roomId name ownerUsername : Text) (operationId : Option Text)
    (drawn ts ts' : Nat) (fault fault' : Option WriteFault) : ∃ written answers,
      (createChannel ids roomId name ownerUsername operationId drawn ts ts' fault fault').Keeps
        written answers := by
  -- The two first events are two writes without transactions on an empty log.
  have made : (⟨[], makeChannel roomId, drawn⟩ : Room).Keeps [] [] :=
    ⟨rfl, by simp, List.Pairwise.nil, holds_makeChannel roomId Map.empty none, by simp⟩
  unfold createChannel
  simp only
  split
  · rename_i room first
    obtain ⟨written, keeps⟩ := made.wrote first rfl
    exact ⟨written, _, keeps⟩
  · rename_i room stored first
    obtain ⟨written, keeps⟩ := made.wrote first rfl
    generalize second : Room.writeEvent ids room _ ts' fault' = outcome
    obtain ⟨room', answer⟩ := outcome
    obtain ⟨written', keeps'⟩ := keeps.wrote second rfl
    exact ⟨written', _, keeps'⟩

/-- A room that is opened again keeps what was answered. -/
theorem Room.Keeps.opened (keeps : room.Keeps written answers) {channel : Channel}
    {harnesses : Map Text Text} {ownerName : Option Text} {torn : Bool}
    (opened : openChannel room.channel.roomId room.lines harnesses ownerName torn = some channel) :
    ({ room with channel } : Room).Keeps written answers := by
  simp only [openChannel, Option.ite_none_right_eq_some, Option.some.injEq] at opened
  obtain ⟨-, rfl⟩ := opened
  have reread :=
    reread_lines harnesses (if torn then some room.lines.length else none) keeps.own keeps.order
  rw [← keeps.lines] at reread
  -- All lines stay, also where the end of the log is cut off.
  have stays :
    Room.kept { room with
      channel := { room.lines.foldl Channel.readLine { makeChannel room.channel.roomId with
      harnesses, validLines := if torn then some room.lines.length else none } with ownerName } }
        written = written := by
    rw [Room.kept]
    simp only
    rw [reread.validLines]
    cases torn with
    | false => rfl
    | true =>
      simp only [if_true]
      rw [keeps.lines, List.length_map]
      exact List.take_length
  refine ⟨keeps.lines, ?_, keeps.order, ?_, ?_⟩
  · intro line inside
    rw [keeps.own line inside]
    exact reread.roomId.symm
  · rw [stays]
    exact reread.holds.congr rfl rfl
  · rw [stays]
    intro event inside reads
    obtain ⟨line, there, same⟩ := keeps.answers event inside reads
    exact ⟨line, (kept_sublist room written).subset there, same⟩

/-- In every state, what was answered with stays in the log. -/
theorem Room.Answered.keeps (answered : room.Answered ids answers) :
    ∃ written, room.Keeps written answers := by
  -- Each call of the run keeps what was answered with before it and adds its own answer.
  induction answered with
  | created roomId name ownerUsername operationId drawn ts ts' fault fault' =>
    obtain ⟨written, answers, keeps⟩ :=
      @keeps_createChannel ids roomId name ownerUsername operationId drawn ts ts' fault fault'
    exact ⟨written, keeps.all⟩
  | append eventInput ts fault _ ih =>
    obtain ⟨written, keeps⟩ := ih
    exact keeps.append eventInput ts fault
  | @setOwnerChannelName room answers ownerUsername name ts fault _ ih =>
    obtain ⟨written, keeps⟩ := ih
    have named :
      Room.Keeps { room with channel := { room.channel with ownerName := name } } written answers :=
      keeps.remains keeps.lines keeps.own keeps.order rfl rfl rfl rfl
    unfold Room.setOwnerChannelName
    simp only
    split
    · exact ⟨written, by simpa using named⟩
    · split
      · exact ⟨written, by simpa using named⟩
      · exact named.wrote rfl rfl
  | opened harnesses ownerName torn _ opened ih =>
    obtain ⟨written, keeps⟩ := ih
    exact ⟨written, keeps.opened opened⟩

/-! ## What lasts -/

/-- What a call was answered with is held by the channel in every later state, as what of it lasts,
if its line is read. -/
theorem Room.Answered.held (answered : room.Answered ids answers) {event : LocalEvent}
    (inside : event ∈ answers) (readable : event.Readable) :
    ∃ held ∈ room.channel.events, held.lasting = event.lasting := by
  -- The answer stands on a line that stays, and the channel holds what such lines say.
  obtain ⟨written, keeps⟩ := answered.keeps
  obtain ⟨line, there, reads, same⟩ := keeps.answers event inside readable
  obtain ⟨held, among, same'⟩ := keeps.holds.known line there reads
  exact ⟨held, among, same'.trans same⟩

/-- Two answers with one number, or of one transaction, last as one event. -/
theorem Room.Answered.single (answered : room.Answered ids answers) {event event' : LocalEvent}
    (inside : event ∈ answers) (inside' : event' ∈ answers) (readable : event.Readable)
    (readable' : event'.Readable)
    (same : event.seq = event'.seq ∨ ∃ key, event.txn = some key ∧ event'.txn = some key) :
    event.lasting = event'.lasting := by
  -- Both are held by the channel, where numbers and transactions occur once.
  obtain ⟨written, keeps⟩ := answered.keeps
  obtain ⟨held, among, lasts⟩ := answered.held inside readable
  obtain ⟨held', among', lasts'⟩ := answered.held inside' readable'
  obtain ⟨seq, txn⟩ := lasting_eq lasts
  obtain ⟨seq', txn'⟩ := lasting_eq lasts'
  suffices one : held = held' by rw [← lasts, one, lasts']
  rcases same with number | ⟨key, is, is'⟩
  · -- Numbers only grow.
    have distinct : (room.channel.events.map (·.seq)).Nodup :=
      List.pairwise_map.mpr (keeps.holds.ascending.imp fun {earlier later} less =>
        Nat.ne_of_lt less)
    exact List.inj_on_of_nodup_map distinct among among' (by rw [seq, number, seq'])
  · have found := (keeps.holds.txns key held).mpr ⟨among, txn.trans is⟩
    have found' := (keeps.holds.txns key held').mpr ⟨among', txn'.trans is'⟩
    exact Option.some.inj (found.symm.trans found')

/-- A transaction that was answered is found again. -/
theorem Room.Answered.found (answered : room.Answered ids answers) {event : LocalEvent}
    (inside : event ∈ answers) (readable : event.Readable) {txnId : Text}
    (isTxn : event.txnId = some txnId) :
    ∃ held, room.channel.byTxn.get (txnKey event.sender txnId) = some held
      ∧ held.lasting = event.lasting := by
  -- What lasts of the event has its transaction, so the channel finds it under the same key.
  obtain ⟨written, keeps⟩ := answered.keeps
  obtain ⟨held, among, lasts⟩ := answered.held inside readable
  have own : held.txn = some (txnKey event.sender txnId) := by
    rw [(lasting_eq lasts).2, LocalEvent.txn, isTxn]
    rfl
  exact ⟨held, (keeps.holds.txns _ held).mpr ⟨among, own⟩, lasts⟩

/-- A room whose creation was answered with, as its first event, is opened again in every later
state. -/
theorem Room.Answered.opens (answered : room.Answered ids answers) {event : LocalEvent}
    (inside : event ∈ answers) (readable : event.Readable) (creates : event.type = .create)
    (first : event.seq = 1) (harnesses : Map Text Text) (ownerName : Option Text) (torn : Bool) :
    ∃ channel, openChannel room.channel.roomId room.lines harnesses ownerName torn
      = some channel := by
  -- The creation stands on a line that is read, and with the first number it is the first event
  -- again.
  obtain ⟨written, keeps⟩ := answered.keeps
  obtain ⟨line, there, reads, same⟩ := keeps.answers event inside readable
  have reread :=
    reread_lines harnesses (if torn then some room.lines.length else none) keeps.own keeps.order
  rw [← keeps.lines] at reread
  obtain ⟨held, among, same'⟩ :=
    reread.holds.known line ((kept_sublist room written).subset there) reads
  have lasts := same'.trans same
  have type : held.lasting.type = event.lasting.type := by rw [lasts]
  have seq : held.seq = 1 := (lasting_eq lasts).1.trans first
  refine ⟨_, if_pos ?_⟩
  -- No event has a smaller number.
  cases events : (room.lines.foldl Channel.readLine { makeChannel room.channel.roomId with
      harnesses, validLines := if torn then some room.lines.length else none }).events with
  | nil =>
    rw [events] at among
    cases among
  | cons head rest =>
    have ascending := reread.holds.ascending
    rw [events] at among ascending
    rcases List.mem_cons.mp among with rfl | later
    · exact congrArg some (type.trans creates)
    · have less := List.rel_of_pairwise_cons ascending later
      obtain ⟨line', -, ⟨decoded, read⟩, same''⟩ := reread.reads head (events ▸ List.mem_cons_self)
      have positive := (decodeLocalEvent_inv read).1.seq.1
      rw [(lasting_eq same'').1] at positive
      omega

end Khala.Local
