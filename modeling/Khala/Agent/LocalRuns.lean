import Khala.Agent.LocalIndexes

/-! The states that a room reaches through writes that may fail and through restarts, and what holds
in all of them. -/

namespace Khala.Local

open Js Decode

-- The identifiers of events in the order in which they are drawn; sixteen random bytes do not come
-- twice.
variable (ids : Nat → Text)

/-- What a running store writes to a room. -/
inductive Room.Writes : Room → Room → Prop
  | append (room : Room) (eventInput : AppendInput) (ts : Nat) (fault : Option WriteFault) :
    Writes room (room.append ids eventInput ts fault).1
  | setOwnerChannelName (room : Room) (ownerUsername : Text) (name : Option Text) (ts : Nat)
    (fault : Option WriteFault) :
    Writes room (room.setOwnerChannelName ids ownerUsername name ts fault).1

/-- The states of a room from its creation on. A room whose creation failed is at most left as its
log, which a restart may read. -/
inductive Room.Reachable : Room → Prop
  | created (roomId name ownerUsername : Text) (operationId : Option Text) (drawn ts ts' : Nat)
      (fault fault' : Option WriteFault) :
    Reachable (createChannel ids roomId name ownerUsername operationId drawn ts ts' fault fault')
  | write {room room' : Room} : Reachable room → Writes ids room room' → Reachable room'
  | opened {room : Room} {channel : Channel} (harnesses : Map Text Text) (ownerName : Option Text)
    (torn : Bool) :
    Reachable room → openChannel room.channel.roomId room.lines harnesses ownerName torn
      = some channel →
      Reachable { room with channel }

/-! ## The log -/

/-- The lines are events with identifiers of their own, all drawn before. -/
def Written (drawn : Nat) (lines : List Json) : Prop :=
  ∃ written : List LocalEvent, lines = written.map (·.toJson) ∧ (written.map (·.eventId)).Nodup
    ∧ ∀ event ∈ written, ∃ draw < drawn, event.eventId = ids draw

variable {ids}

/-- The first lines of a log are written as all were. -/
theorem Written.take {drawn : Nat} {lines : List Json} (written : Written ids drawn lines)
    (kept : Nat) :
    Written ids drawn (lines.take kept) := by
  obtain ⟨events, rfl, distinct, draws⟩ := written
  refine ⟨events.take kept, by rw [List.map_take], ?_, fun event inside =>
    draws event (List.mem_of_mem_take inside)⟩
  rw [List.map_take]
  exact distinct.sublist (List.take_sublist _ _)

/-- A log stays as written when another identifier is drawn. -/
theorem Written.later {drawn : Nat} {lines : List Json} (written : Written ids drawn lines) :
    Written ids (drawn + 1) lines := by
  obtain ⟨events, rfl, distinct, draws⟩ := written
  refine ⟨events, rfl, distinct, fun event inside => ?_⟩
  obtain ⟨draw, before, same⟩ := draws event inside
  exact ⟨draw, Nat.lt_succ_of_lt before, same⟩

/-- A line with the identifier that is drawn next. -/
theorem Written.concat (distinct : Function.Injective ids) {drawn : Nat} {lines : List Json}
    (written : Written ids drawn lines) {event : LocalEvent} (next : event.eventId = ids drawn) :
    Written ids (drawn + 1) (lines ++ [event.toJson]) := by
  -- The new identifier is the next draw, so it differs from all before.
  obtain ⟨events, rfl, apart, draws⟩ := written
  refine ⟨events ++ [event], by simp, ?_, ?_⟩
  · rw [List.map_append, List.nodup_append]
    refine ⟨apart, List.nodup_singleton _, ?_⟩
    intro earlier inside last isLast same
    obtain ⟨event', inside', rfl⟩ := List.mem_map.mp inside
    obtain ⟨draw, before, drew⟩ := draws event' inside'
    rw [List.map_singleton, List.mem_singleton] at isLast
    have := distinct (drew.symm.trans (same.trans (isLast.trans next)))
    omega
  -- Every identifier was drawn, and the new one just now.
  · intro other inside
    rcases List.mem_append.mp inside with inside | inside
    · obtain ⟨draw, before, same⟩ := draws other inside
      exact ⟨draw, Nat.lt_succ_of_lt before, same⟩
    · rw [List.mem_singleton.mp inside]
      exact ⟨drawn, Nat.lt_succ_self drawn, next⟩

/-! ## What holds in every state -/

variable (ids) in
/-- The channel's indexes are right, and every event in it and every line of its log has an
identifier of its own. -/
structure Room.Sound (room : Room) : Prop where
  indexed : room.channel.Indexed
  draws : ∀ event ∈ room.channel.events, ∃ draw < room.drawn, event.eventId = ids draw
  written : Written ids room.drawn room.lines

/-- The lines that are kept are written as all were. -/
theorem Room.Sound.keptLines {room : Room} (sound : room.Sound ids) :
    Written ids room.drawn room.keptLines := by
  unfold Room.keptLines
  cases room.channel.validLines with
  | none => exact sound.written
  | some kept => exact sound.written.take kept

/-- A draw more, and a change beside the events and their indexes. -/
private theorem sound_of_same {room : Room} (sound : room.Sound ids) {lines : List Json}
    {channel : Channel} (written : Written ids (room.drawn + 1) lines)
    (events : channel.events = room.channel.events)
    (byEventId : channel.byEventId = room.channel.byEventId)
    (lastMember : channel.lastMember = room.channel.lastMember)
    (previousMembers : channel.previousMembers = room.channel.previousMembers) :
    (⟨lines, channel, room.drawn + 1⟩ : Room).Sound ids where
  indexed := sound.indexed.congr events byEventId lastMember previousMembers
  draws := by
    intro event inside
    rw [events] at inside
    obtain ⟨draw, before, same⟩ := sound.draws event inside
    exact ⟨draw, Nat.lt_succ_of_lt before, same⟩
  written := written

/-- Every way in which a write ends leaves the room sound. -/
theorem Room.Sound.writeEvent (distinct : Function.Injective ids) {room : Room}
    (sound : room.Sound ids) (eventInput : AppendInput) (ts : Nat) (fault : Option WriteFault) :
    (room.writeEvent ids eventInput ts fault).1.Sound ids := by
  unfold Room.writeEvent
  simp only
  split
  · exact sound_of_same sound sound.written.later rfl rfl rfl rfl
  · rename_i inMemory onLine harnesses _
    cases fault with
    | some fault =>
      cases fault with
      | harness => exact sound_of_same sound sound.written.later rfl rfl rfl rfl
      | truncate => exact sound_of_same sound sound.written.later rfl rfl rfl rfl
      | open_ => exact sound_of_same sound sound.keptLines.later rfl rfl rfl rfl
      | line landed =>
        cases landed with
        | false => exact sound_of_same sound (by simpa using sound.keptLines.later) rfl rfl rfl rfl
        | true => exact sound_of_same sound (sound.keptLines.concat distinct rfl) rfl rfl rfl rfl
    | none =>
      -- The stored event has the next number and an identifier that no earlier event has.
      have unindexed : Channel.Indexed { room.channel with harnesses, validLines := none } :=
        sound.indexed.congr rfl rfl rfl rfl
      refine ⟨unindexed.indexEvent (Nat.lt_succ_self _) ?_, ?_, sound.keptLines.concat distinct rfl⟩
      · intro earlier inside same
        obtain ⟨draw, before, drew⟩ := sound.draws earlier inside
        have := distinct (drew.symm.trans same)
        omega
      · intro event inside
        rw [events_indexEvent, List.mem_append, List.mem_singleton] at inside
        rcases inside with inside | rfl
        · obtain ⟨draw, before, same⟩ := sound.draws event inside
          exact ⟨draw, Nat.lt_succ_of_lt before, same⟩
        · exact ⟨room.drawn, Nat.lt_succ_self _, rfl⟩

/-- A created room is sound, whatever fails. -/
theorem sound_createChannel (distinct : Function.Injective ids) (roomId name ownerUsername : Text)
    (operationId : Option Text) (drawn ts ts' : Nat) (fault fault' : Option WriteFault) :
    (createChannel ids roomId name ownerUsername operationId drawn ts ts' fault fault').Sound
      ids := by
  -- The empty channel is sound, and both of its events are written like any other.
  have made : (⟨[], makeChannel roomId, drawn⟩ : Room).Sound ids :=
    ⟨indexed_makeChannel roomId Map.empty none, nofun, [], rfl, List.nodup_nil, nofun⟩
  unfold createChannel
  simp only
  -- Where the first event fails, there is no second one.
  split
  · rename_i room first
    have same : _ = room := congrArg Prod.fst first
    rw [← same]
    exact made.writeEvent distinct _ ts fault
  · rename_i room stored first
    have same : _ = room := congrArg Prod.fst first
    rw [← same]
    exact (made.writeEvent distinct _ ts fault).writeEvent distinct _ ts' fault'

/-- Writes keep a room sound. -/
theorem Room.Sound.writes (distinct : Function.Injective ids) {room room' : Room}
    (sound : room.Sound ids) (writes : room.Writes ids room') : room'.Sound ids := by
  -- Both ways to write end in one event or in none.
  cases writes with
  | append eventInput ts fault =>
    unfold Room.append
    split
    · exact sound
    · exact sound.writeEvent distinct eventInput ts fault
  -- The name of the owner is no part of what is indexed.
  | setOwnerChannelName ownerUsername name ts fault =>
    have named : Room.Sound ids { room with channel := { room.channel with ownerName := name } } :=
      ⟨sound.indexed.congr rfl rfl rfl rfl, sound.draws, sound.written⟩
    unfold Room.setOwnerChannelName
    simp only
    split
    · exact named
    · split
      · exact named
      · exact named.writeEvent distinct _ ts fault

/-! ## Opening -/

/-- The harness changes neither number nor identifier. -/
theorem withHarness_keeps (harnesses : Map Text Text) (event : LocalEvent) :
    (withHarness harnesses event).seq = event.seq
      ∧ (withHarness harnesses event).eventId = event.eventId := by
  unfold withHarness
  split
  · exact ⟨rfl, rfl⟩
  · exact ⟨rfl, rfl⟩

/-- Reading a line keeps the channel's indexes right, as long as its identifier is new. -/
private theorem indexed_readLine {channel : Channel} (indexed : channel.Indexed)
    {event : LocalEvent} (fresh : ∀ earlier ∈ channel.events, earlier.eventId ≠ event.eventId) :
    (channel.readLine event.toJson).Indexed
      ∧ ∀ other ∈ (channel.readLine event.toJson).events, other ∈ channel.events
        ∨ other.eventId = event.eventId := by
  -- A line that does not read, or is out of order, is skipped.
  unfold Channel.readLine
  cases read : decodeLocalEvent event.toJson with
  | error error => exact ⟨indexed, fun other inside => .inl inside⟩
  | ok decoded =>
    simp only
    split
    · exact ⟨indexed, fun other inside => .inl inside⟩
    -- Any other line is indexed, under the identifier that it was written with.
    · rename_i accepted
      have sameId := eventId_decodeLocalEvent read
      obtain ⟨seq, eventId⟩ := withHarness_keeps channel.harnesses decoded
      constructor
      · apply indexed.indexEvent
        · rw [seq]
          omega
        · rw [eventId, sameId]
          exact fresh
      · intro other inside
        rw [events_indexEvent, List.mem_append, List.mem_singleton] at inside
        rcases inside with inside | rfl
        · exact .inl inside
        · exact .inr (eventId.trans sameId)

/-- Reading a whole log, line by line. -/
private theorem indexed_readLines (written : List LocalEvent)
    (apart : (written.map (·.eventId)).Nodup) :
    ∀ channel : Channel, channel.Indexed →
      (∀ earlier ∈ channel.events, ∀ event ∈ written, earlier.eventId ≠ event.eventId) →
      ((written.map (·.toJson)).foldl Channel.readLine channel).Indexed
        ∧ ∀ other ∈ ((written.map (·.toJson)).foldl Channel.readLine channel).events,
            other ∈ channel.events ∨ ∃ event ∈ written, other.eventId = event.eventId := by
  -- By induction on the lines that are left; each has an identifier that no line before it has.
  induction written with
  | nil => exact fun channel indexed _ => ⟨indexed, fun other inside => .inl inside⟩
  | cons event rest ih =>
    intro channel indexed fresh
    rw [List.map_cons, List.nodup_cons] at apart
    obtain ⟨first, from_⟩ := indexed_readLine indexed fun earlier inside =>
      fresh earlier inside event List.mem_cons_self
    obtain ⟨rest', from'⟩ :=
      ih apart.2 (channel.readLine event.toJson) first fun earlier inside other later => by
      rcases from_ earlier inside with old | new
      · exact fresh earlier old other (List.mem_cons_of_mem _ later)
      · intro same
        exact apart.1 (List.mem_map.mpr ⟨other, later, same.symm.trans new⟩)
    refine ⟨rest', fun other inside => ?_⟩
    rcases from' other inside with inside | ⟨event', later, same⟩
    · rcases from_ other inside with old | new
      · exact .inl old
      · exact .inr ⟨event, List.mem_cons_self, new⟩
    · exact .inr ⟨event', List.mem_cons_of_mem _ later, same⟩

/-- A room that is opened again is sound. -/
theorem Room.Sound.opened {room : Room} (sound : room.Sound ids) {channel : Channel} {roomId : Text}
    {harnesses : Map Text Text} {ownerName : Option Text} {torn : Bool}
    (opened : openChannel roomId room.lines harnesses ownerName torn = some channel) :
    ({ room with channel } : Room).Sound ids := by
  obtain ⟨written, lines, apart, draws⟩ := sound.written
  simp only [openChannel, Option.ite_none_right_eq_some, Option.some.injEq] at opened
  obtain ⟨-, rfl⟩ := opened
  obtain ⟨indexed, from_⟩ := indexed_readLines written apart _
    (indexed_makeChannel roomId harnesses (if torn then some room.lines.length else none)) nofun
  rw [← lines] at indexed from_
  refine ⟨indexed.congr rfl rfl rfl rfl, fun event inside => ?_, sound.written⟩
  rcases from_ event inside with none_ | ⟨event', inside', same⟩
  · cases none_
  · obtain ⟨draw, before, drew⟩ := draws event' inside'
    exact ⟨draw, before, same.trans drew⟩

/-- Every state that a room reaches is sound. -/
theorem Room.Reachable.sound (distinct : Function.Injective ids) {room : Room}
    (reachable : room.Reachable ids) :
    room.Sound ids := by
  induction reachable with
  | created roomId name ownerUsername operationId drawn ts ts' fault fault' =>
    exact sound_createChannel distinct roomId name ownerUsername operationId drawn ts
      ts' fault fault'
  | write _ writes ih => exact ih.writes distinct writes
  | opened harnesses ownerName torn _ opened ih => exact ih.opened opened

/-! ## Growth -/

/-- A write adds at most one event to the channel. -/
theorem Room.Writes.grows {room room' : Room} (writes : room.Writes ids room') :
    ∃ more, room'.channel.events = room.channel.events ++ more := by
  -- An event that is written is appended, and a failed write appends nothing.
  have written : ∀ (room : Room) (eventInput : AppendInput) (ts : Nat) (fault : Option WriteFault),
      ∃ more, (room.writeEvent ids eventInput ts fault).1.channel.events
        = room.channel.events ++ more := by
    intro room eventInput ts fault
    unfold Room.writeEvent
    simp only
    split
    · exact ⟨[], (List.append_nil _).symm⟩
    · cases fault with
      | some fault => cases fault <;> exact ⟨[], (List.append_nil _).symm⟩
      | none => exact ⟨_, events_indexEvent _ _⟩
  -- Both ways to write go through that.
  cases writes with
  | append eventInput ts fault =>
    unfold Room.append
    split
    · exact ⟨[], (List.append_nil _).symm⟩
    · exact written room eventInput ts fault
  | setOwnerChannelName ownerUsername name ts fault =>
    unfold Room.setOwnerChannelName
    simp only
    split
    · exact ⟨[], (List.append_nil _).symm⟩
    · split
      · exact ⟨[], (List.append_nil _).symm⟩
      · exact written _ _ ts fault

end Khala.Local
