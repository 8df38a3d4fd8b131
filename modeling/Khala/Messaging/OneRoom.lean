import Khala.Messaging.ChannelCreate

/-! One room per operation: whoever retries a create, from wherever, the operation has made at most
one room. -/

namespace Khala.ChannelCreate

open Js Concurrent

/-! ## The world -/

/-- The call may still make its room. -/
def World.CanLand (world : World) (call : RoomCall) : Prop :=
  call.settled = false ∧ call.landed = none ∧ world.now < call.leaseUntil

/-- The record is an attempt that has a lease until the given time. -/
def Attempting (value : JournalRecord) (leaseUntil : Int) : Prop :=
  ∃ record, value = .create record ∧ record.state = .attempting
    ∧ record.leaseUntilMs = some leaseUntil

/-- No lease of the record is live. -/
def World.Expired (world : World) (value : JournalRecord) : Prop :=
  ∀ leaseUntil, Attempting value leaseUntil → leaseUntil ≤ world.now

/-- The call that stored the record was settled. -/
def World.Settled (world : World) (writer : Nat) : Prop :=
  ∃ call, world.calls writer = some call ∧ call.settled = true

/-- The call that stored the record has made its room. -/
def World.Landed (world : World) (writer : Nat) : Prop :=
  ∃ call, world.calls writer = some call ∧ call.landed.isSome = true

/-- What a record for an operation says of the rooms. -/
structure World.Tells (world : World) (operationId : Text) (value : JournalRecord) (writer : Nat) :
    Prop where
  attempting : ∀ leaseUntil, Attempting value leaseUntil → world.roomsOf operationId = []
    ∨ world.Landed writer
  notApplied : ∀ record, value = .create record → record.state = .not_applied →
    world.roomsOf operationId = []
  created : ∀ record room, value = .create record → record.state = .created →
    record.room = some room →
    room.roomId ∈ world.roomsOf operationId

/-- What holds of the world at all times. -/
structure Kept (world : World) : Prop where
  /-- A call that may still make its room has the lease that is in the journal. -/
  leased : ∀ tag call, world.calls tag = some call → world.CanLand call →
    ∃ entry, world.records (journalKey call.operationId) = some entry ∧ entry.writer = tag
      ∧ Attempting entry.value call.leaseUntil
  /-- An operation has one room at most. -/
  single : ∀ operationId, (world.roomsOf operationId).length ≤ 1
  /-- Without a record there is no room. -/
  unclaimed : ∀ operationId, world.records (journalKey operationId) = none →
    world.roomsOf operationId = []
  /-- The record tells what has become of the operation's rooms. -/
  tells : ∀ operationId entry, world.records (journalKey operationId) = some entry →
    world.Tells operationId entry.value entry.writer
  /-- The room of a call is one of its operation's. -/
  landed : ∀ tag call roomId, world.calls tag = some call → call.landed = some roomId →
    roomId ∈ world.roomsOf call.operationId
  numbered : ∀ key entry, world.records key = some entry → entry.revision ≤ world.sequence

/-- What is put is there. -/
theorem World.put_self (world : World) (writer : Nat) (key : Text) (value : JournalRecord) :
    (world.put writer key value).records key = some ⟨value, world.sequence + 1, writer⟩ :=
  Function.update_self ..

/-- Putting a record leaves the others. -/
theorem World.put_of_ne {world : World} {writer : Nat} {key other : Text} {value : JournalRecord}
    (apart : other ≠ key) :
    (world.put writer key value).records other = world.records other :=
  Function.update_of_ne apart ..

/-- Different operations have different records. -/
theorem journalKey_injective {one two : Text} (same : journalKey one = journalKey two) :
    one = two :=
  List.append_cancel_left same

/-- A record that is stored where no call may make a room any more, and that tells the truth, keeps
the world. -/
theorem Kept.put {world : World} (kept : Kept world) {tag : Nat} {operationId : Text}
    {value : JournalRecord}
    (past : ∀ other call, world.calls other = some call → call.operationId = operationId →
      ¬ world.CanLand call)
    (truth : world.Tells operationId value tag) :
    Kept (world.put tag (journalKey operationId) value) where
  leased := by
    intro other call found may
    -- A call that can still land is about another operation.
    have apart : journalKey call.operationId ≠ journalKey operationId := fun same =>
      past other call found (journalKey_injective same) may
    obtain ⟨entry, stored, rest⟩ := kept.leased other call found may
    exact ⟨entry, by rw [World.put_of_ne apart]; exact stored, rest⟩
  single := kept.single
  unclaimed := by
    intro other absent
    -- The record written is there under its own key.
    by_cases same : journalKey other = journalKey operationId
    · rw [same, World.put_self] at absent
      cases absent
    · rw [World.put_of_ne same] at absent
      exact kept.unclaimed other absent
  tells := by
    intro other entry found
    by_cases same : journalKey other = journalKey operationId
    · obtain rfl := journalKey_injective same
      rw [World.put_self] at found
      cases found
      -- What it tells is true by assumption, and the other records are as they were.
      exact ⟨truth.attempting, truth.notApplied, truth.created⟩
    · rw [World.put_of_ne same] at found
      obtain ⟨attempting, notApplied, created⟩ := kept.tells other entry found
      exact ⟨attempting, notApplied, created⟩
  landed := kept.landed
  numbered := by
    intro key entry found
    -- Its revision is the newest one.
    by_cases same : key = journalKey operationId
    · rw [same, World.put_self] at found
      cases found
      exact Nat.le_refl _
    · rw [World.put_of_ne same] at found
      exact Nat.le_succ_of_le (kept.numbered key entry found)

/-! ## What others do -/

/-- What another call or the outside may do while the call with this number waits. -/
structure Rely (tag : Nat) (before after : World) : Prop where
  /-- Time goes on. -/
  now : before.now ≤ after.now
  sequence : before.sequence ≤ after.sequence
  /-- A record was there before, or it is newer. -/
  records : ∀ key entry, after.records key = some entry →
    before.records key = some entry ∨ before.sequence < entry.revision
  /-- Under a record that nobody creates a room for there are no new rooms. -/
  quiet : ∀ operationId entry, before.records (journalKey operationId) = some entry →
    entry.revision ≤ before.sequence →
    after.records (journalKey operationId) = some entry →
      (before.Expired entry.value ∨ before.Settled entry.writer) →
    after.roomsOf operationId = before.roomsOf operationId
  /-- Rooms stay. -/
  rooms : ∀ operationId roomId, roomId ∈ before.roomsOf operationId →
    roomId ∈ after.roomsOf operationId
  /-- Calls that are over stay so. -/
  settled : ∀ other, before.Settled other → after.Settled other
  uncalled : before.calls tag = none → after.calls tag = none
  /-- The call only changes by making its room, while it is under way. -/
  call : ∀ call, before.calls tag = some call → ∃ landed,
    after.calls tag = some { call with landed }
    ∧ (call.settled = true → landed = call.landed)
  /-- The call's own attempt is only replaced once its lease has ended. -/
  own : ∀ key entry leaseUntil, before.records key = some entry → entry.writer = tag →
    Attempting entry.value leaseUntil →
    after.records key = some entry ∨ leaseUntil ≤ after.now

/-- The same world may be relied on. -/
theorem Rely.refl (tag : Nat) (world : World) : Rely tag world world where
  now := le_refl _
  sequence := Nat.le_refl _
  records := fun _ _ found => .inl found
  quiet := fun _ _ _ _ _ _ => rfl
  rooms := fun _ _ found => found
  settled := fun _ settled => settled
  uncalled := id
  call := fun call found => ⟨call.landed, found, fun _ => rfl⟩
  own := fun _ _ _ found _ _ => .inl found

/-- What has expired has expired for good. -/
theorem World.Expired.later {before after : World} {value : JournalRecord}
    (expired : before.Expired value) (now : before.now ≤ after.now) : after.Expired value :=
  fun leaseUntil attempting => le_trans (expired leaseUntil attempting) now

/-- What is relied on over two stretches is over both. -/
theorem Rely.trans {tag : Nat} {first second third : World} (one : Rely tag first second)
    (two : Rely tag second third) :
    Rely tag first third where
  now := le_trans one.now two.now
  sequence := Nat.le_trans one.sequence two.sequence
  records := by
    intro key entry found
    rcases two.records key entry found with mid | later
    · exact one.records key entry mid
    · exact .inr (Nat.lt_of_le_of_lt one.sequence later)
  quiet := by
    intro operationId entry found old last still
    -- The record cannot have gone and come back, since revisions only grow.
    have between : second.records (journalKey operationId) = some entry :=
      (two.records _ entry last).resolve_right fun later => by
        have := one.sequence
        omega
    rw [two.quiet operationId entry between (Nat.le_trans old one.sequence) last
      (still.imp (fun expired => expired.later one.now) (one.settled _)),
      one.quiet operationId entry found old between still]
  rooms := fun operationId roomId inside =>
    two.rooms operationId roomId (one.rooms operationId roomId inside)
  settled := fun other settled => two.settled other (one.settled other settled)
  uncalled := fun none_ => two.uncalled (one.uncalled none_)
  call := by
    intro call found
    obtain ⟨landed, mid, same⟩ := one.call call found
    obtain ⟨landed', last, same'⟩ := two.call _ mid
    exact ⟨landed', last, fun settled => (same' settled).trans (same settled)⟩
  own := by
    intro key entry leaseUntil found mine attempting
    rcases one.own key entry leaseUntil found mine attempting with same | past
    · exact two.own key entry leaseUntil same mine attempting
    · exact .inr (le_trans past two.now)

/-- What an operation of the call with this number does. -/
structure Change (tag : Nat) (before after : World) : Prop where
  /-- No time passes. -/
  now : after.now = before.now
  /-- No room is made. -/
  rooms : after.rooms = before.rooms
  sequence : before.sequence ≤ after.sequence
  records : ∀ key entry, after.records key = some entry →
    before.records key = some entry ∨ before.sequence < entry.revision
  calls : ∀ other, other ≠ tag → after.calls other = before.calls other
  settled : before.Settled tag → after.Settled tag
  /-- Attempts of others stay until their lease has ended. -/
  others : ∀ key entry leaseUntil, before.records key = some entry → entry.writer ≠ tag →
    Attempting entry.value leaseUntil →
    after.records key = some entry ∨ leaseUntil ≤ before.now
  /-- The invariant is kept. -/
  kept : Kept before → Kept after

/-- Changing nothing is a change. -/
theorem Change.refl (tag : Nat) (world : World) : Change tag world world :=
  ⟨rfl, rfl, Nat.le_refl _, fun _ _ found => .inl found, fun _ _ => rfl, id, fun _ _ _ found _ _ =>
    .inl found, id⟩

/-- The rooms of an operation are in the list of rooms. -/
theorem World.roomsOf_congr {one two : World} (same : one.rooms = two.rooms) (operationId : Text) :
    one.roomsOf operationId = two.roomsOf operationId := by
  rw [World.roomsOf, World.roomsOf, same]

/-- Others may rely on a change. -/
theorem Change.rely {tag other : Nat} {before after : World} (change : Change tag before after)
    (apart : other ≠ tag) :
    Rely other before after where
  now := le_of_eq change.now.symm
  sequence := change.sequence
  records := change.records
  quiet := fun operationId _ _ _ _ _ => World.roomsOf_congr change.rooms operationId
  rooms := fun operationId _ inside => by rwa [World.roomsOf_congr change.rooms operationId]
  settled := by
    intro third settled
    -- The call of this thread has changed, and that of another has not.
    by_cases own : third = tag
    · exact own ▸ change.settled (own ▸ settled)
    · obtain ⟨call, found, done⟩ := settled
      exact ⟨call, by rw [change.calls third own]; exact found, done⟩
  uncalled := fun none_ => by rw [change.calls other apart]; exact none_
  call := fun call found =>
    ⟨call.landed, by rw [change.calls other apart]; exact found, fun _ => rfl⟩
  own := by
    intro key entry leaseUntil found mine attempting
    -- A record of the other thread was not written over, unless its lease is past.
    refine (change.others key entry leaseUntil found (mine ▸ apart) attempting).imp id fun past =>
      ?_
    rw [change.now]
    exact past

/-- Storing a record is a change, where no call may make a room any more. -/
theorem Change.put {tag : Nat} {world : World} {operationId : Text} {value : JournalRecord}
    (past : Kept world → ∀ other call, world.calls other = some call →
      call.operationId = operationId → ¬ world.CanLand call)
    (truth : Kept world → world.Tells operationId value tag)
    (others : ∀ entry, world.records (journalKey operationId) = some entry → entry.writer ≠ tag →
      world.Expired entry.value) :
    Change tag world (world.put tag (journalKey operationId) value) where
  now := rfl
  rooms := rfl
  sequence := Nat.le_succ _
  records := by
    intro key entry found
    -- The record under this key has a newer revision.
    by_cases same : key = journalKey operationId
    · rw [same, World.put_self] at found
      cases found
      exact .inr (Nat.lt_succ_self _)
    · rw [World.put_of_ne same] at found
      exact .inl found
  calls := fun _ _ => rfl
  settled := id
  others := by
    intro key entry leaseUntil found apart attempting
    -- The record that is written over was this thread's, or its lease is past.
    by_cases same : key = journalKey operationId
    · exact .inr (others entry (same ▸ found) apart leaseUntil attempting)
    · exact .inl (by rw [World.put_of_ne same]; exact found)
  kept := fun kept => kept.put (past kept) (truth kept)

/-! ## What a call knows -/

/-- If the record still has the revision, its lease is over. -/
structure Over (operationId : Text) (revision : Nat) (world : World) : Prop where
  old : revision ≤ world.sequence
  expired : ∀ entry, world.records (journalKey operationId) = some entry →
    entry.revision = revision →
    world.Expired entry.value

/-- If the record still has the revision, its lease is over and it stands for no room. -/
structure Free (operationId : Text) (revision : Nat) (world : World) :
    Prop extends Over operationId revision world where
  empty : ∀ entry, world.records (journalKey operationId) = some entry → entry.revision = revision →
    world.roomsOf operationId = []

/-- The record with the revision is the call's own attempt, and it is there until its lease is over.
-/
structure Held (tag : Nat) (operationId : Text) (revision : Nat) (leaseUntil : Int)
    (world : World) : Prop where
  old : revision ≤ world.sequence
  own : ∀ entry, world.records (journalKey operationId) = some entry → entry.revision = revision →
    entry.writer = tag ∧ Attempting entry.value leaseUntil
  there : (∃ entry, world.records (journalKey operationId) = some entry
    ∧ entry.revision = revision) ∨ leaseUntil ≤ world.now

/-- A record that was read, if it still has its revision. -/
structure Seen (operationId : Text) (value : JournalRecord) (revision : Nat) (world : World) :
    Prop where
  old : revision ≤ world.sequence
  same : ∀ entry, world.records (journalKey operationId) = some entry → entry.revision = revision →
    entry.value = value

variable {tag : Nat} {operationId : Text} {revision : Nat} {leaseUntil : Int}
    {before after world : World}

/-- A record at a revision of the past was there in the past. -/
theorem Rely.entry (rely : Rely tag before after) (old : revision ≤ before.sequence) {key : Text}
    {entry : Stored} (found : after.records key = some entry) (same : entry.revision = revision) :
    before.records key = some entry :=
  (rely.records key entry found).resolve_right fun later => by omega

/-- An attempt that is over stays over. -/
theorem Over.later (past : Over operationId revision before) (rely : Rely tag before after) :
    Over operationId revision after where
  old := Nat.le_trans past.old rely.sequence
  expired := fun entry found same =>
    (past.expired entry (rely.entry past.old found same) same).later rely.now

/-- An operation that is free stays so until its record changes. -/
theorem Free.later (free : Free operationId revision before) (rely : Rely tag before after) :
    Free operationId revision after where
  toOver := free.toOver.later rely
  empty := by
    intro entry found same
    have was := rely.entry free.old found same
    rw [rely.quiet operationId entry was (same ▸ free.old) found
      (.inl (free.expired entry was same))]
    exact free.empty entry was same

/-- A record that was seen was there. -/
theorem Seen.later {value : JournalRecord} (seen : Seen operationId value revision before)
    (rely : Rely tag before after) :
    Seen operationId value revision after where
  old := Nat.le_trans seen.old rely.sequence
  same := fun entry found same => seen.same entry (rely.entry seen.old found same) same

/-- A lease that is held is held until it expires. -/
theorem Held.later (held : Held tag operationId revision leaseUntil before)
    (rely : Rely tag before after) :
    Held tag operationId revision leaseUntil after where
  old := Nat.le_trans held.old rely.sequence
  own := fun entry found same => held.own entry (rely.entry held.old found same) same
  there := by
    rcases held.there with ⟨entry, found, same⟩ | past
    · obtain ⟨mine, attempting⟩ := held.own entry found same
      exact (rely.own _ entry leaseUntil found mine attempting).imp (fun still =>
        ⟨entry, still, same⟩) id
    · exact .inr (le_trans past rely.now)

/-- Nobody makes a room under a record whose lease is over. -/
theorem Over.quiet (past : Over operationId revision world) (kept : Kept world) {entry : Stored}
    (found : world.records (journalKey operationId) = some entry)
    (same : entry.revision = revision) :
    ∀ other call, world.calls other = some call → call.operationId = operationId →
    ¬ world.CanLand call := by
  intro other call calls operation may
  obtain ⟨leased, stored, -, attempting⟩ := kept.leased other call calls may
  rw [operation, found] at stored
  cases stored
  have := past.expired entry found same _ attempting
  have := may.2.2
  omega

/-- Nobody but the call makes a room under its own attempt. -/
theorem Held.quiet (held : Held tag operationId revision leaseUntil world)
    (settled : world.Settled tag) (kept : Kept world) {entry : Stored}
    (found : world.records (journalKey operationId) = some entry)
    (same : entry.revision = revision) :
    ∀ other call, world.calls other = some call → call.operationId = operationId →
    ¬ world.CanLand call := by
  intro other call calls operation may
  obtain ⟨leased, stored, writer, -⟩ := kept.leased other call calls may
  rw [operation, found] at stored
  cases stored
  obtain ⟨own, have_, done⟩ := settled
  obtain rfl : other = tag := writer.symm.trans (held.own entry found same).1
  rw [calls] at have_
  cases have_
  rw [may.1] at done
  cases done

/-! ## The operations -/

def createDuty (tag : Nat) : Duty createEffects World where
  rely := fun _ => Rely tag
  guarantee := Change tag
  permits := fun _ => Kept

/-- From every kept world in which the fact is known, the program keeps its duty. -/
abbrev Guards {α : Type} (tag : Nat) (known : World → Prop) (program : CreateProgram α)
    (post : α → World → Prop) : Prop :=
  Triple (execCreate tag) (createDuty tag) Kept known program post

/-- What is known stays true while the call waits. -/
def Undisturbed (tag : Nat) (known : World → Prop) : Prop :=
  ∀ before after, Rely tag before after → known before → known after

/-- One operation, by what it does to the world. -/
theorem Guards.call {known : World → Prop} {op : CreateOp} {post : op.Reply → World → Prop}
    (undisturbed : Undisturbed tag known)
    (works : ∀ choice world reply after, Kept world → known world →
      execCreate tag op choice world = some (reply, after) → Change tag world after
      ∧ post reply after) :
    Guards tag known (perform op) post :=
  Triple.call (fun before after permitted others held =>
    ⟨permitted, undisturbed before after others held⟩)
    fun choice world reply after kept held _ ran =>
      let worked := works choice world reply after kept held ran
      ⟨worked.1, worked.1.kept kept, worked.2⟩

/-- The gate changes nothing. -/
theorem Guards.gate {known : World → Prop} (undisturbed : Undisturbed tag known) :
    Guards tag known (perform .gate) fun _ => known :=
  .call undisturbed fun _ world _ _ _ held ran => by
    cases ran
    exact ⟨.refl .., held⟩

/-- The clock tells the time of the moment. -/
theorem Guards.clock {known : World → Prop} (undisturbed : Undisturbed tag known) :
    Guards tag known (perform .clock) fun time world => known world ∧ time = world.now :=
  .call undisturbed fun _ world _ _ _ held ran => by
    cases ran
    exact ⟨.refl .., held, rfl⟩

/-- Replacing a record, where the record with the revision may be replaced. -/
theorem Guards.replace {known : World → Prop} {value : JournalRecord}
    {post : JournalWrite → World → Prop} (undisturbed : Undisturbed tag known)
    (may : ∀ world entry, Kept world → known world →
      world.records (journalKey operationId) = some entry → entry.revision = revision →
      (∀ other call, world.calls other = some call → call.operationId = operationId →
        ¬ world.CanLand call) ∧ world.Tells operationId value tag
        ∧ (entry.writer ≠ tag → world.Expired entry.value))
    (stored : ∀ world, known world → post (.stored (world.sequence + 1))
      (world.put tag (journalKey operationId) value))
    (lost : ∀ world, known world → post .unavailable (world.put tag (journalKey operationId) value))
    (unchanged : ∀ world write, known world → (∀ revision, write ≠ .stored revision) →
      post write world) :
    Guards tag known (perform (.replace (journalKey operationId) revision value)) post := by
  refine .call undisturbed fun choice world reply after kept held ran => ?_
  rw [execCreate] at ran
  -- The record is there as it was read, or the write is refused.
  split at ran
  · cases ran
    refine ⟨.refl .., unchanged _ _ held ?_⟩
    split <;> simp
  · rename_i current
    rw [not_not, Option.map_eq_some_iff] at current
    obtain ⟨entry, found, same⟩ := current
    obtain ⟨past, truth, others⟩ := may world entry kept held found same
    -- The write changes this one record, and the rest of the world stays.
    have change : Change tag world (world.put tag (journalKey operationId) value) := by
      refine .put (fun _ => past) (fun _ => truth) fun other found' apart => ?_
      rw [found] at found'
      cases found'
      exact others apart
    -- It is answered, is lost, or does not come through.
    split at ran
    · cases ran
      exact ⟨change, stored world held⟩
    · cases ran
      exact ⟨change, lost world held⟩
    · cases ran
      exact ⟨.refl .., unchanged _ _ held (by simp)⟩

/-- A result that names a room names one that was made for the operation. -/
def Names (operationId : Text) (result : CreateResult) (world : World) : Prop :=
  ∀ room, result = .ok room → room.roomId ∈ world.roomsOf operationId

/-- A room stays where it is. -/
theorem undisturbed_mem (tag : Nat) (operationId roomId : Text) :
    Undisturbed tag fun world => roomId ∈ world.roomsOf operationId :=
  fun _ _ others inside => others.rooms operationId roomId inside

/-- Two facts that are not disturbed are not together. -/
theorem undisturbed_and {one two : World → Prop} (first : Undisturbed tag one)
    (second : Undisturbed tag two) :
    Undisturbed tag fun world => one world ∧ two world :=
  fun before after others held =>
    ⟨first before after others held.1, second before after others held.2⟩

/-- The last write of an attempt, which says how it ended. -/
theorem Guards.ended {known : World → Prop} {base : CreateBase} {state : CreateState}
    {room : Option ChannelSummary} (leaseUntil : Int) (undisturbed : Undisturbed tag known)
    (ends : state ≠ .attempting)
    (held : ∀ world, known world → Held tag operationId revision leaseUntil world
      ∧ world.Settled tag)
    (empty : ∀ world, Kept world → known world → state = .not_applied → ∀ entry,
      world.records (journalKey operationId) = some entry → entry.revision = revision →
      world.roomsOf operationId = [])
    (made : ∀ world, known world → ∀ summary, room = some summary →
      summary.roomId ∈ world.roomsOf operationId) :
    Guards tag known (perform (.replace (journalKey operationId) revision (base.ended state room)))
      fun _ world => ∀ summary, room = some summary →
      summary.roomId ∈ world.roomsOf operationId := by
  refine .replace undisturbed (fun world entry kept fact found same => ?_)
    (fun world fact => made world fact)
    (fun world fact => made world fact) fun world _ fact _ => made world fact
  -- The record is this thread's and its call is settled.
  obtain ⟨holds, settled⟩ := held world fact
  refine ⟨holds.quiet settled kept found same, ⟨?_, ?_, ?_⟩, fun apart => ?_⟩
  -- Its end is no attempt; it is not applied or has made its room.
  · rintro leaseUntil' ⟨record, is, attempting, -⟩
    cases is
    exact absurd attempting ends
  · intro record is state_
    cases is
    exact empty world kept fact state_ entry found same
  · intro record summary is _ given
    cases is
    exact made world fact summary given
  · exact absurd (holds.own entry found same).1 apart

/-- The call's own `createRoom` call, on its way or settled. -/
structure Called (tag : Nat) (operationId : Text) (settled : Bool) (world : World) : Prop where
  call : ∃ call, world.calls tag = some call ∧ call.operationId = operationId
    ∧ call.settled = settled

/-- A call that was made stays made. -/
theorem Called.later {settled : Bool} (called : Called tag operationId settled before)
    (rely : Rely tag before after) :
    Called tag operationId settled after := by
  obtain ⟨call, found, operation, done⟩ := called.call
  obtain ⟨landed, still, -⟩ := rely.call call found
  exact ⟨⟨_, still, operation, done⟩⟩

/-- The settled call made no room. -/
def Unmade (tag : Nat) (world : World) : Prop :=
  ∃ call, world.calls tag = some call ∧ call.settled = true ∧ call.landed = none

/-- A call that was not made is made by nobody else. -/
theorem Unmade.later (unmade : Unmade tag before) (rely : Rely tag before after) :
    Unmade tag after := by
  obtain ⟨call, found, done, none_⟩ := unmade
  obtain ⟨landed, still, same⟩ := rely.call call found
  exact ⟨_, still, done, (same done).trans none_⟩

/-- A call that was not made is settled. -/
theorem Unmade.settled (unmade : Unmade tag world) : world.Settled tag := by
  obtain ⟨call, found, done, -⟩ := unmade
  exact ⟨call, found, done⟩

/-- The call of `createRoom`, made under an attempt that the call holds. -/
theorem Guards.beginCreate {title : Option Text} :
    Guards tag (fun world => Held tag operationId revision leaseUntil world ∧ world.calls tag = none)
      (perform (.beginCreate operationId title leaseUntil))
      fun _ world => Held tag operationId revision leaseUntil world ∧ Called tag operationId false world := by
  -- The call is new, so it has made nothing.
  refine .call (fun before after others fact => ⟨fact.1.later others, others.uncalled fact.2⟩)
    fun _ world _ after kept fact ran => ?_
  cases ran
  obtain ⟨held, uncalled⟩ := fact
  refine ⟨?_, ⟨held.old, held.own, held.there⟩, ⟨_, Function.update_self .., rfl, rfl⟩⟩
  -- Who has landed before is not this thread, as it had no call.
  have landed : ∀ writer, world.Landed writer →
      World.Landed { world with calls := Function.update world.calls tag (some ⟨operationId, leaseUntil, none, false⟩) } writer := by
    rintro writer ⟨call, found, made⟩
    have apart : writer ≠ tag := by
      rintro rfl
      rw [uncalled] at found
      cases found
    exact ⟨call, by simp only [Function.update_of_ne apart, found], made⟩
  refine ⟨rfl, rfl, Nat.le_refl _, fun _ _ found => .inl found, fun other apart =>
    Function.update_of_ne apart .., ?_,
    fun _ _ _ found _ _ => .inl found, fun _ =>
      ⟨?_, kept.single, kept.unclaimed, ?_, ?_, kept.numbered⟩⟩
  -- A call of this thread would have been there before.
  · rintro ⟨call, found, -⟩
    rw [uncalled] at found
    cases found
  · intro other call found may
    by_cases own : other = tag
    · -- The new call has the lease of the attempt that it is made under.
      subst own
      simp only [Function.update_self, Option.some.injEq] at found
      subst found
      rcases held.there with ⟨entry, stored, same⟩ | past
      · exact ⟨entry, stored, held.own entry stored same⟩
      · have live : world.now < leaseUntil := may.2.2
        exact absurd past (not_le.mpr live)
    · simp only [Function.update_of_ne own] at found
      exact kept.leased other call found may
  -- What the records tell is true after it, as no room has come or gone.
  · intro other entry found
    obtain ⟨attempting, notApplied, created⟩ := kept.tells other entry found
    exact ⟨fun lease is => (attempting lease is).imp id (landed _), notApplied, created⟩
  · intro other call roomId found made
    -- The new call has no room yet.
    by_cases own : other = tag
    · subst own
      simp only [Function.update_self, Option.some.injEq] at found
      subst found
      cases made
    · simp only [Function.update_of_ne own] at found
      exact kept.landed other call roomId found made

/-- What is known of a call that has settled so. -/
def SettledAs (tag : Nat) (operationId : Text) (settled : SubstrateEffect) (world : World) : Prop :=
  match settled with
  | .done room => room.roomId ∈ world.roomsOf operationId ∧ world.Settled tag
  | .rejected _ => Unmade tag world
  | .unavailable => Unmade tag world
  | .unknown => world.Settled tag

/-- Others do not disturb how a call settled. -/
theorem undisturbed_settledAs (tag : Nat) (operationId : Text) (settled : SubstrateEffect) :
    Undisturbed tag (SettledAs tag operationId settled) := by
  intro before after others fact
  cases settled with
  | done room => exact ⟨others.rooms _ _ fact.1, others.settled _ fact.2⟩
  | rejected code => exact Unmade.later fact others
  | unavailable => exact Unmade.later fact others
  | unknown => exact others.settled _ fact

/-- The call settles, and says what has become of it. -/
theorem Guards.endCreate :
    Guards tag (fun world => Held tag operationId revision leaseUntil world
      ∧ Called tag operationId false world)
      (perform .endCreate)
      fun settled world => Held tag operationId revision leaseUntil world
        ∧ SettledAs tag operationId (safeEffect settled) world := by
  refine .call (fun before after others fact => ⟨fact.1.later others, fact.2.later others⟩)
    fun choice world settled after kept fact ran => ?_
  -- The call is the one that was begun.
  obtain ⟨held, ⟨call, found, operation, -⟩⟩ := fact
  simp only [execCreate, found, Option.ite_none_right_eq_some, Option.some.injEq, Prod.mk.injEq]
    at ran
  obtain ⟨may, rfl, rfl⟩ := ran
  -- Only this thread's call has changed, and only in that it is settled.
  have own : ∀ {other call'},
    (Function.update world.calls tag (some { call with settled := true })) other = some call' →
      (other = tag ∧ call' = { call with settled := true })
        ∨ (other ≠ tag ∧ world.calls other = some call') := by
    intro other call' found'
    by_cases same : other = tag
    · subst same
      rw [Function.update_self] at found'
      exact .inl ⟨rfl, (Option.some.inj found').symm⟩
    · rw [Function.update_of_ne same] at found'
      exact .inr ⟨same, found'⟩
  refine ⟨⟨rfl, rfl, Nat.le_refl _, fun _ _ found => .inl found, fun other apart =>
    Function.update_of_ne apart ..,
    fun _ => ⟨_, Function.update_self .., rfl⟩, fun _ _ _ found _ _ => .inl found,
    fun _ => ⟨?_, kept.single, kept.unclaimed, ?_, ?_, kept.numbered⟩⟩,
      ⟨held.old, held.own, held.there⟩, ?_⟩
  -- A settled call can land no more.
  · intro other call' found' may'
    rcases own found' with ⟨-, rfl⟩ | ⟨-, was⟩
    · cases may'.1
    · exact kept.leased other call' was may'
  · intro other entry stored
    obtain ⟨attempting, notApplied, created⟩ := kept.tells other entry stored
    -- Whose attempt has landed is as before.
    refine ⟨fun lease is => (attempting lease is).imp id ?_, notApplied, created⟩
    rintro ⟨call', was, made⟩
    by_cases same : entry.writer = tag
    · rw [same, found] at was
      cases was
      exact ⟨{ call with settled := true }, by simp only [same, Function.update_self], made⟩
    · exact ⟨call', by simp only [Function.update_of_ne same, was], made⟩
  · intro other call' roomId found' made
    rcases own found' with ⟨-, rfl⟩ | ⟨-, was⟩
    · exact kept.landed tag call roomId found made
    · exact kept.landed other call' roomId was made
  · -- What the reply says of the room is what became of it.
    have done : World.Settled { world with calls := Function.update world.calls tag (some { call with settled := true }) } tag :=
      ⟨_, Function.update_self .., rfl⟩
    -- Without an effect nothing is told of the room.
    cases effect : choice.effect with
    | none => exact done
    | some reply =>
      rw [effect] at may
      cases reply with
      | done room =>
        -- A reply that tells of a room tells of the one that was made.
        have landed : call.landed = some room.roomId := by simpa [RoomCall.maySettle] using may
        exact ⟨operation ▸ kept.landed tag call room.roomId found landed, done⟩
      | rejected code =>
        -- A refusal tells that none was made, and so does a failure.
        have none_ : call.landed = none := by simpa [RoomCall.maySettle] using may
        exact ⟨_, Function.update_self .., rfl, none_⟩
      | unavailable =>
        have none_ : call.landed = none := by simpa [RoomCall.maySettle] using may
        exact ⟨_, Function.update_self .., rfl, none_⟩
      | unknown => exact done

/-! ## The programs -/

/-- A program that names only rooms of the operation. -/
abbrev NamesRooms (tag : Nat) (operationId : Text) (known : World → Prop)
    (program : CreateProgram CreateResult) : Prop :=
  Guards tag known program (Names operationId)

/-- A result that names no room. -/
theorem NamesRooms.plain {known : World → Prop} {result : CreateResult}
    (plain : ∀ room, result ≠ .ok room) :
    NamesRooms tag operationId known (pure result) :=
  .done _ fun _ _ _ room is => absurd is (plain room)

/-- Running a creation keeps to the rules. -/
theorem runCreate_guards (base : CreateBase) :
    NamesRooms tag operationId (fun world => Held tag operationId revision leaseUntil world
      ∧ world.calls tag = none)
      (runCreate operationId base revision leaseUntil) := by
  refine .bind Guards.beginCreate fun _ => .bind Guards.endCreate fun settled => ?_
  have undisturbed : Undisturbed tag fun world =>
      Held tag operationId revision leaseUntil world
        ∧ SettledAs tag operationId (safeEffect settled) world :=
    fun before after others fact =>
      ⟨fact.1.later others, undisturbed_settledAs tag operationId _ before after others fact.2⟩
  -- A refused attempt leaves no room, so its record may say that nothing was applied.
  have empty : ∀ world, Kept world → Held tag operationId revision leaseUntil world →
    Unmade tag world → ∀ entry,
      world.records (journalKey operationId) = some entry → entry.revision = revision →
        world.roomsOf operationId = [] := by
    intro world kept held unmade entry found same
    obtain ⟨own, attempting⟩ := held.own entry found same
    refine ((kept.tells operationId entry found).attempting leaseUntil attempting).resolve_right
      fun landed => ?_
    obtain ⟨call, calls, -, none_⟩ := unmade
    obtain ⟨call', calls', made⟩ := landed
    rw [own, calls] at calls'
    cases calls'
    rw [none_] at made
    cases made
  cases settled_ : safeEffect settled with
  | done room =>
    rw [settled_] at undisturbed
    refine .bind (Guards.ended leaseUntil undisturbed (by decide)
      (fun world fact => ⟨fact.1, fact.2.2⟩)
      (fun _ _ _ state => by cases state) fun world fact summary is => ?_) fun _ => ?_
    · cases is
      exact fact.2.1
    · refine .done _ fun world _ made room' is => ?_
      cases is
      exact made room rfl
  | rejected code =>
    rw [settled_] at undisturbed
    refine .bind (Guards.ended leaseUntil undisturbed (by decide)
      (fun world fact => ⟨fact.1, Unmade.settled fact.2⟩)
        (fun world kept fact _ => empty world kept fact.1 fact.2)
      fun _ _ _ is => by cases is) fun _ => NamesRooms.plain (by simp)
  | unavailable =>
    rw [settled_] at undisturbed
    refine .bind (Guards.ended leaseUntil undisturbed (by decide)
      (fun world fact => ⟨fact.1, Unmade.settled fact.2⟩)
        (fun world kept fact _ => empty world kept fact.1 fact.2)
      fun _ _ _ is => by cases is) fun _ => NamesRooms.plain (by simp)
  | unknown =>
    rw [settled_] at undisturbed
    refine .bind (Guards.ended leaseUntil undisturbed (by decide) (fun world fact => fact)
      (fun _ _ _ state => by cases state) fun _ _ _ is => by cases is) fun _ =>
        NamesRooms.plain (by simp)

/-- Taking over a free record gives the call an attempt of its own. -/
theorem takeLease_guards (base : CreateBase) :
    NamesRooms tag operationId (fun world => Free operationId revision world
      ∧ world.calls tag = none)
      (takeLease operationId base revision) := by
  -- Others may go on, and the operation stays free of a call that can land.
  have undisturbed : Undisturbed tag fun world => Free operationId revision world
    ∧ world.calls tag = none :=
    fun before after others fact => ⟨fact.1.later others, others.uncalled fact.2⟩
  have taking :
    ∀ leaseUntil, Guards tag (fun world => Free operationId revision world ∧ world.calls tag = none)
      (perform (.replace (journalKey operationId) revision (base.attempt leaseUntil)))
      fun write world => ∀ taken, write = .stored taken →
        Held tag operationId taken leaseUntil world ∧ world.calls tag = none := by
    -- The attempt is written over what was read, and its revision is the lease.
    intro leaseUntil
    refine .replace undisturbed (fun world entry kept fact found same => ?_)
      (fun world fact taken is => ?_)
      (fun _ _ _ is => by cases is) fun _ _ _ none_ taken is => absurd is (none_ taken)
    · refine ⟨fact.1.quiet kept found same,
        ⟨fun _ _ => .inl (fact.1.empty entry found same), fun _ _ _ =>
        fact.1.empty entry found same, fun record room is state => ?_⟩, fun _ =>
          fact.1.expired entry found same⟩
      -- An attempt is not created.
      cases is
      cases state
    · cases is
      refine ⟨⟨Nat.le_refl _, ?_, .inl ⟨_, World.put_self .., rfl⟩⟩, fact.2⟩
      intro entry found _
      rw [World.put_self] at found
      cases found
      exact ⟨rfl, _, rfl, rfl, rfl⟩
  -- The time of the lease is read first, and then it is taken.
  refine .bind (Guards.clock undisturbed) fun time =>
    .bind ((taking _).weaken fun _ _ fact => fact.1) fun write => ?_
  cases write with
  | unavailable => exact NamesRooms.plain (by simp)
  | conflict => exact NamesRooms.plain (by simp)
  -- With the lease taken, the room is asked for.
  | stored taken => exact (runCreate_guards base).weaken fun _ _ fact => fact taken rfl

/-- After the clock was read, an attempt that is not live is over. -/
theorem leaseLive_guards (found : CreateRecord) :
    Guards tag (fun world => Seen operationId (.create found) revision world
      ∧ world.calls tag = none) (leaseLive found)
      fun live world => (Seen operationId (.create found) revision world ∧ world.calls tag = none)
        ∧ (live = false → Over operationId revision world) := by
  have undisturbed : Undisturbed tag fun world => Seen operationId (.create found) revision world
    ∧ world.calls tag = none :=
    fun before after others fact => ⟨fact.1.later others, others.uncalled fact.2⟩
  -- A record that is no attempt, or has no lease, is never live.
  have other : (∀ lease, ¬ Attempting (.create found) lease) → ∀ world,
    Seen operationId (.create found) revision world →
      Over operationId revision world := fun never world seen =>
    ⟨seen.old, fun entry stored same lease attempting =>
      absurd (seen.same entry stored same ▸ attempting) (never lease)⟩
  unfold leaseLive
  split
  · rename_i lease attempting_ leased
    refine .bind (Guards.clock undisturbed) fun time => .done _ fun world _ fact =>
      ⟨fact.1, fun dead => ?_⟩
    refine ⟨fact.1.1.old, fun entry stored same lease' attempting => ?_⟩
    obtain ⟨record, is, -, until_⟩ := attempting
    rw [fact.1.1.same entry stored same] at is
    cases is
    rw [leased] at until_
    cases until_
    rw [decide_eq_false_iff_not, not_lt, fact.2] at dead
    exact dead
  · rename_i never
    refine .done _ fun world _ fact => ⟨fact, fun _ => other ?_ world fact.1⟩
    rintro lease ⟨record, is, attempting, leased⟩
    cases is
    exact never lease attempting leased

/-- A lookup either resolves the earlier attempt or proves the record free. -/
theorem reconcile_guards (found : CreateRecord) :
    Guards tag (fun world => Over operationId revision world ∧ world.calls tag = none)
      (reconcile operationId found revision)
      fun result world => match result with
        | some result => Names operationId result world
        | none => Free operationId revision world ∧ world.calls tag = none := by
  have undisturbed : Undisturbed tag fun world => Over operationId revision world
    ∧ world.calls tag = none :=
    fun before after others fact => ⟨fact.1.later others, others.uncalled fact.2⟩
  -- The answer is one that the substrate may give now.
  have looked : Guards tag (fun world => Over operationId revision world ∧ world.calls tag = none)
      (perform (.findCreatedRoom operationId)) fun lookup world =>
        (Over operationId revision world ∧ world.calls tag = none)
        ∧ world.mayAnswer operationId lookup = true := by
    refine .call undisturbed fun choice world lookup after _ fact ran => ?_
    simp only [execCreate, Option.ite_none_right_eq_some, Option.some.injEq, Prod.mk.injEq] at ran
    obtain ⟨may, rfl, rfl⟩ := ran
    exact ⟨.refl .., fact, may⟩
  -- An unknown outcome names no room.
  have plain : ∀ {known : World → Prop},
    Guards tag known (pure (some (.outcomeUnknown operationId)) :
      CreateProgram (Option CreateResult))
      fun result world => match result with
        | some result => Names operationId result world
        | none => Free operationId revision world ∧ world.calls tag = none :=
    .done _ fun _ _ _ room is => by cases is
  refine .bind looked fun lookup => ?_
  cases lookup with
  | none => exact plain
  | some lookup =>
    cases lookup with
    | unknown => exact plain
    | unavailable => exact plain
    -- A definite absence frees the operation.
    | absent =>
      refine .done _ fun world _ fact => ⟨⟨fact.1.1, fun entry stored same => ?_⟩, fact.1.2⟩
      simpa [World.mayAnswer] using fact.2
    | found room =>
      have inside : ∀ world : World, world.mayAnswer operationId (some (.found room)) = true →
        room.roomId ∈ world.roomsOf operationId :=
        fun world may => by simpa [World.mayAnswer] using may
      -- The room that was found stays, so the record may name it.
      have written :
        Guards tag (fun world => Over operationId revision world
          ∧ room.roomId ∈ world.roomsOf operationId)
          (perform (.replace (journalKey operationId) revision
            (.create { found with state := .created, leaseUntilMs := none, room := some room })))
          fun _ world => room.roomId ∈ world.roomsOf operationId := by
        refine .replace (undisturbed_and (fun before after others past => Over.later past others)
          (undisturbed_mem tag operationId room.roomId)) (fun world entry kept fact stored same =>
            ?_) (fun _ fact => fact.2)
          (fun _ fact => fact.2) fun _ _ fact _ => fact.2
        -- The record says that the room was created, and names it.
        refine ⟨fact.1.quiet kept stored same, ⟨?_, ?_, ?_⟩, fun _ =>
          fact.1.expired entry stored same⟩
        · rintro lease ⟨record, is, attempting, -⟩
          cases is
          cases attempting
        · intro record is state
          cases is
          cases state
        · intro record summary is _ given
          cases is
          cases given
          exact fact.2
      refine .bind (written.weaken fun world _ fact => ⟨fact.1.1, inside world fact.2⟩) fun _ =>
        .done _ fun world _ there room' is => ?_
      cases is
      exact there

/-- Retrying a creation keeps to the rules. -/
theorem retryCreate_guards (base : CreateBase) (found : CreateRecord) :
    NamesRooms tag operationId (fun world => Seen operationId (.create found) revision world
      ∧ world.calls tag = none)
      (retryCreate operationId base found revision) := by
  refine .bind (leaseLive_guards found) fun live => ?_
  -- A lease that is live is left to its holder.
  cases live with
  | true => exact NamesRooms.plain (by simp)
  | false =>
    rw [if_neg Bool.false_ne_true]
    split
    · -- What was not applied has made no room.
      rename_i notApplied
      refine (takeLease_guards base).weaken fun world kept fact =>
        ⟨⟨fact.2 rfl, fun entry stored same => ?_⟩, fact.1.2⟩
      exact (kept.tells operationId entry stored).notApplied found
        (fact.1.1.same entry stored same) notApplied
    -- An attempt whose lease is past is looked up before it is made again.
    · refine .bind ((reconcile_guards found).weaken fun world _ fact => ⟨fact.2 rfl, fact.1.2⟩)
        fun resolved => ?_
      cases resolved with
      | some result => exact .done _ fun _ _ names => names
      | none => exact takeLease_guards base

/-- Resuming a creation keeps to the rules. -/
theorem resumeCreate_guards (base : CreateBase) (value : JournalRecord) :
    NamesRooms tag operationId (fun world =>
      (Seen operationId value revision world ∧ world.calls tag = none)
        ∧ ∀ record room, value = .create record → record.state = .created →
        record.room = some room →
          room.roomId ∈ world.roomsOf operationId)
      (resumeCreate operationId base value revision) := by
  unfold resumeCreate
  -- The record is that of a creation, or the operation was another one.
  split
  · rename_i found
    split
    · exact NamesRooms.plain (by simp)
    -- A record that says created has its room.
    · split
      · rename_i room state given
        refine .done _ fun world _ fact room' is => ?_
        cases is
        exact fact.2 found room rfl state given
      · exact (retryCreate_guards base found).weaken fun _ _ fact => fact.1
  · exact NamesRooms.plain (by simp)

/-- A claim gives the call an attempt of its own, or what was there. -/
theorem Guards.claim (base : CreateBase) :
    Guards tag (fun world => world.calls tag = none)
      (perform (.claim (journalKey operationId) (base.attempt leaseUntil)))
      fun claim world => match claim with
        | .claimed revision => Held tag operationId revision leaseUntil world
          ∧ world.calls tag = none
        | .exists value revision => (Seen operationId value revision world ∧ world.calls tag = none)
          ∧ ∀ record room, value = .create record → record.state = .created →
          record.room = some room →
            room.roomId ∈ world.roomsOf operationId
        | .unavailable => True := by
  refine .call (fun _ _ others none_ => others.uncalled none_)
    fun choice world claim after kept uncalled ran => ?_
  -- Nothing was claimed, so no room was made and none can be on its way.
  have fresh : world.records (journalKey operationId) = none →
      Change tag world (world.put tag (journalKey operationId) (base.attempt leaseUntil)) := by
    intro absent
    have none_ := kept.unclaimed operationId absent
    refine .put (fun _ other call calls operation may => ?_)
      (fun _ => ⟨fun _ _ => .inl none_, fun _ _ _ => none_, ?_⟩)
      fun entry found => ?_
    · obtain ⟨entry, stored, -⟩ := kept.leased other call calls may
      rw [operation, absent] at stored
      cases stored
    · intro record room is state
      cases is
      cases state
    · rw [absent] at found
      cases found
  rw [execCreate] at ran
  split at ran
  · rename_i entry _ found
    cases ran
    refine ⟨.refl .., ⟨⟨kept.numbered _ entry found, fun other found' _ => ?_⟩, uncalled⟩, ?_⟩
    · rw [found] at found'
      cases found'
      rfl
    · exact (kept.tells operationId entry found).created
  · rename_i _ absent
    cases ran
    refine ⟨fresh absent, ⟨Nat.le_refl _, ?_, .inl ⟨_, World.put_self .., rfl⟩⟩, uncalled⟩
    intro entry found _
    rw [World.put_self] at found
    cases found
    exact ⟨rfl, _, rfl, rfl, rfl⟩
  · rename_i _ absent
    cases ran
    exact ⟨fresh absent, trivial⟩
  · cases ran
    exact ⟨.refl .., trivial⟩

/-- Claiming a creation keeps to the rules. -/
theorem claimCreate_guards (base : CreateBase) :
    NamesRooms tag operationId (fun world => world.calls tag = none)
      (claimCreate operationId base) := by
  -- No call of this thread is under way, and others start none for it.
  have undisturbed : Undisturbed tag fun world => world.calls tag = none := fun _ _ others none_ =>
    others.uncalled none_
  refine .bind (Guards.gate undisturbed) fun view => ?_
  cases refused : deviceGate view with
  | some refusal =>
    -- A refusal by the gate names no room.
    refine NamesRooms.plain fun room is => ?_
    subst is
    unfold deviceGate at refused
    split_ifs at refused <;> cases refused
  | none =>
    refine .bind (Guards.clock undisturbed) fun time =>
      .bind ((Guards.claim base).weaken fun _ _ fact => fact.1) fun claim => ?_
    -- The claim is new, or there is a record to resume from.
    cases claim with
    | unavailable => exact NamesRooms.plain (by simp)
    | claimed revision => exact runCreate_guards base
    | «exists» value revision => exact resumeCreate_guards base value

/-- The whole call keeps to the rules. -/
theorem createChannel_guards (tag : Nat) (call : CreateCall) :
    NamesRooms tag call.operationId (fun world => world.calls tag = none) (createChannel call) := by
  unfold createChannel
  split
  · exact NamesRooms.plain (by simp)
  · split
    · exact NamesRooms.plain (by simp)
    · split
      · exact NamesRooms.plain (by simp)
      · exact claimCreate_guards _

/-! ## Runs -/

/-- What has expired can no longer land. -/
theorem World.Expired.not_canLand {value : JournalRecord} (expired : world.Expired value)
    (attempting : Attempting value leaseUntil) :
    ¬ world.now < leaseUntil :=
  not_lt.mpr (expired leaseUntil attempting)

/-- Time that passes keeps the world. -/
private theorem kept_elapse (kept : Kept world) (ms : Nat) :
    Kept { world with now := world.now + ms } where
  leased := by
    intro tag call found may
    have live : world.now + ms < call.leaseUntil := may.2.2
    exact kept.leased tag call found ⟨may.1, may.2.1, by omega⟩
  single := kept.single
  unclaimed := kept.unclaimed
  tells := fun operationId entry found =>
    ⟨(kept.tells operationId entry found).attempting,
      (kept.tells operationId entry found).notApplied,
      (kept.tells operationId entry found).created⟩
  landed := kept.landed
  numbered := kept.numbered

/-- Others may rely on the time that passes. -/
private theorem rely_elapse (tag : Nat) (world : World) (ms : Nat) :
    Rely tag world { world with now := world.now + ms } where
  now := by simp
  sequence := Nat.le_refl _
  records := fun _ _ found => .inl found
  quiet := fun _ _ _ _ _ _ => rfl
  rooms := fun _ _ inside => inside
  settled := fun _ settled => settled
  uncalled := id
  call := fun call found => ⟨call.landed, found, fun _ => rfl⟩
  own := fun _ _ _ found _ _ => .inl found

/-- The world after a call has made its room. -/
def World.landing (world : World) (tag : Nat) (call : RoomCall) (room : ChannelSummary) : World :=
  { world with
    calls := Function.update world.calls tag (some { call with landed := some room.roomId })
    rooms := world.rooms ++ [(call.operationId, room)] }

/-- The call that lands has its room. -/
theorem World.landing_self (world : World) (tag : Nat) (call : RoomCall) (room : ChannelSummary) :
    (world.landing tag call room).calls tag = some { call with landed := some room.roomId } :=
  Function.update_self ..

/-- A call that lands leaves the others. -/
theorem World.landing_of_ne {world : World} {tag other : Nat} {call : RoomCall}
    {room : ChannelSummary} (apart : other ≠ tag) :
    (world.landing tag call room).calls other = world.calls other :=
  Function.update_of_ne apart ..

/-- A call that lands adds its room to its operation. -/
theorem World.roomsOf_landing (world : World) (tag : Nat) (call : RoomCall) (room : ChannelSummary)
    (operationId : Text) :
    (world.landing tag call room).roomsOf operationId
      = world.roomsOf operationId ++ if call.operationId = operationId
        then [room.roomId] else [] := by
  rw [World.roomsOf, World.landing, List.filter_append, List.map_append, World.roomsOf]
  by_cases same : call.operationId = operationId <;> simp [same]

section

variable {call : RoomCall} {room : ChannelSummary}

/-- A call that may make a room is the writer of the record, and no room was made before. -/
private theorem empty_of_canLand (kept : Kept world) (found : world.calls tag = some call)
    (may : world.CanLand call) :
    world.roomsOf call.operationId = [] := by
  obtain ⟨entry, stored, writer, attempting⟩ := kept.leased tag call found may
  refine ((kept.tells _ entry stored).attempting _ attempting).resolve_right fun landed => ?_
  obtain ⟨call', found', made⟩ := landed
  rw [writer, found] at found'
  cases found'
  rw [may.2.1] at made
  cases made

/-- After a call has landed each call is as it was, but for that one's room. -/
private theorem calls_landing {other : Nat} {call' : RoomCall}
    (found' : (world.landing tag call room).calls other = some call') :
    (other = tag ∧ call' = { call with landed := some room.roomId })
      ∨ (other ≠ tag ∧ world.calls other = some call') := by
  by_cases same : other = tag
  · subst same
    rw [World.landing_self] at found'
    exact .inl ⟨rfl, (Option.some.inj found').symm⟩
  · rw [World.landing_of_ne same] at found'
    exact .inr ⟨same, found'⟩

/-- A room that is made keeps the world. -/
private theorem kept_landing (kept : Kept world) (found : world.calls tag = some call)
    (may : world.CanLand call) :
    Kept (world.landing tag call room) where
  leased := by
    intro other call' found' may'
    -- The call that lands is not waiting any more.
    rcases calls_landing found' with ⟨-, rfl⟩ | ⟨-, was⟩
    · cases may'.2.1
    · exact kept.leased other call' was may'
  single := by
    intro operationId
    rw [World.roomsOf_landing]
    split
    -- Its operation had no room, and has this one now.
    · rename_i same
      rw [← same, empty_of_canLand kept found may]
      exact Nat.le_refl _
    · rw [List.append_nil]
      exact kept.single operationId
  unclaimed := by
    intro operationId absent
    rw [World.roomsOf_landing]
    split
    -- An operation with a call under way has a record.
    · rename_i same
      obtain ⟨entry, stored, -⟩ := kept.leased tag call found may
      rw [same] at stored
      exact absurd (absent.symm.trans stored) (by simp)
    · rw [List.append_nil]
      exact kept.unclaimed operationId absent
  tells := by
    intro operationId entry stored
    obtain ⟨attempting, notApplied, created⟩ := kept.tells operationId entry stored
    by_cases same : call.operationId = operationId
    · -- The record is the attempt that the call was made under.
      obtain ⟨leased, stored', writer, ⟨record, is, state, leaseUntil⟩⟩ :=
        kept.leased tag call found may
      rw [same] at stored'
      obtain rfl : entry = leased := Option.some.inj (stored.symm.trans stored')
      refine ⟨fun _ _ => .inr ⟨_, by rw [writer, World.landing_self], rfl⟩, ?_, ?_⟩
      · intro record' is' state'
        -- The record is an attempt, and so it is neither ended nor created.
        rw [is] at is'
        cases is'
        rw [state] at state'
        cases state'
      · intro record' room' is' state'
        rw [is] at is'
        cases is'
        rw [state] at state'
        cases state'
    -- The rooms of another operation are as they were.
    · have rooms :
        (world.landing tag call room).roomsOf operationId = world.roomsOf operationId := by
        rw [World.roomsOf_landing, if_neg same, List.append_nil]
      refine ⟨fun lease is =>
        ?_, fun record is state => by rw [rooms]; exact notApplied record is state,
        fun record room' is state given => by rw [rooms]; exact created record room' is state given⟩
      rw [rooms]
      refine (attempting lease is).imp id fun landed => ?_
      obtain ⟨call', was, made⟩ := landed
      -- Its attempt is this call's, which has landed now, or another's.
      by_cases own : entry.writer = tag
      · exact ⟨_, by rw [own, World.landing_self], rfl⟩
      · exact ⟨call', by rw [World.landing_of_ne own, was], made⟩
  landed := by
    intro other call' roomId found' made
    rw [World.roomsOf_landing]
    -- The room of this call is the new one.
    rcases calls_landing found' with ⟨-, rfl⟩ | ⟨-, was⟩
    · cases made
      simp
    · exact List.mem_append_left _ (kept.landed other call' roomId was made)
  numbered := kept.numbered

/-- Others may rely on a call that lands. -/
private theorem rely_landing (kept : Kept world) (found : world.calls tag = some call)
    (may : world.CanLand call) (other : Nat) :
    Rely other world (world.landing tag call room) where
  now := le_refl _
  sequence := Nat.le_refl _
  records := fun _ _ stored => .inl stored
  quiet := by
    intro operationId entry stored _ _ still
    rw [World.roomsOf_landing]
    by_cases same : call.operationId = operationId
    · -- Under the call's attempt the lease is live and the call is not settled.
      exfalso
      obtain ⟨leased, stored', writer, attempting⟩ := kept.leased tag call found may
      rw [same] at stored'
      obtain rfl : entry = leased := Option.some.inj (stored.symm.trans stored')
      rcases still with expired | ⟨call', found', done⟩
      · exact expired.not_canLand attempting may.2.2
      · rw [writer, found] at found'
        cases found'
        rw [may.1] at done
        cases done
    -- The rooms of another operation are as they were.
    · rw [if_neg same, List.append_nil]
  rooms := fun operationId roomId inside => by
    rw [World.roomsOf_landing]
    exact List.mem_append_left _ inside
  settled := by
    rintro third ⟨call', found', done⟩
    -- Of the calls only this one has changed, and it is as settled as before.
    by_cases own : third = tag
    · rw [own, found] at found'
      cases found'
      exact ⟨{ call with landed := some room.roomId }, by rw [own, World.landing_self], done⟩
    · exact ⟨call', by rw [World.landing_of_ne own, found'], done⟩
  uncalled := by
    intro none_
    -- A thread without a call is another one.
    have own : other ≠ tag := by
      rintro rfl
      rw [found] at none_
      cases none_
    rw [World.landing_of_ne own, none_]
  call := by
    intro call' found'
    by_cases own : other = tag
    · rw [own, found] at found'
      cases found'
      -- The call has landed, but nothing was known of one that is not settled.
      refine ⟨some room.roomId, by rw [own, World.landing_self], fun done => ?_⟩
      rw [may.1] at done
      cases done
    · exact ⟨call'.landed, by rw [World.landing_of_ne own, found'], fun _ => rfl⟩
  own := fun _ _ _ stored _ _ => .inl stored

end

/-- What happens outside keeps the world, and no call minds it. -/
theorem happens_kept {event : WorldEvent} (kept : Kept world)
    (happened : happens event world = some after) :
    Kept after ∧ (∀ tag, Rely tag world after) ∧ ∀ tag, world.calls tag = none →
    after.calls tag = none := by
  -- The time passes, or a room that was asked for comes into being.
  cases event with
  | elapse ms =>
    cases happened
    exact ⟨kept_elapse kept ms, fun tag => rely_elapse tag world ms, fun _ none_ => none_⟩
  | land tag room =>
    rw [happens] at happened
    split at happened
    · cases happened
    -- There is a call, and it can land.
    · rename_i call found
      rw [Option.ite_none_right_eq_some, Option.some.injEq] at happened
      obtain ⟨may, rfl⟩ := happened
      have rely : ∀ other, Rely other world (world.landing tag call room) :=
        rely_landing kept found may
      exact ⟨kept_landing kept found may, rely, fun other none_ => (rely other).uncalled none_⟩

/-- The world is kept, calls to come have made no room, and every answer so far names a room that
was made. -/
def createContract : Contract createService where
  invariant := fun log next world => Kept world ∧ (∀ tag, next ≤ tag → world.calls tag = none)
    ∧ ∀ answer ∈ log, Names answer.call.operationId answer.reply world
  duty := fun tag _ => createDuty tag
  answer := fun answer _ world => Kept world ∧ Names answer.call.operationId answer.reply world

/-- The contract of creations holds of every call. -/
theorem createContract_holds : createContract.Holds fun _ _ => True where
  refl := fun _ _ _ _ => Rely.refl ..
  trans := fun _ _ _ _ _ _ one two => one.trans two
  begins := fun {_ next world} call invariant =>
    -- A call begins with what its lemma asks for, as its number is new.
    ⟨(createChannel_guards next call world world invariant.1
      (invariant.2.1 next (Nat.le_refl _))).mono fun _ _ _ held => held,
      invariant.1, fun tag above => invariant.2.1 tag (Nat.le_of_succ_le above), invariant.2.2⟩
  works := fun tag _ invariant below change => by
    refine ⟨change.kept invariant.1, fun other above => ?_, fun answer inside room is => ?_⟩
    -- The numbers above are not yet given to anybody.
    · rw [change.calls other (by omega)]
      exact invariant.2.1 other above
    · rw [World.roomsOf_congr change.rooms]
      exact invariant.2.2 answer inside room is
  rests := fun _ _ _ => .refl ..
  answers := fun answer invariant below _ change held => by
    refine ⟨held.1, fun other above => ?_, fun answer' inside => ?_⟩
    · rw [change.calls other (by omega)]
      exact invariant.2.1 other above
    -- An earlier answer is as true as before, and the new one is by its own lemma.
    · rcases List.mem_append.mp inside with old | new
      · intro room is
        rw [World.roomsOf_congr change.rooms]
        exact invariant.2.2 answer' old room is
      · rw [List.mem_singleton.mp new]
        exact held.2
  outside := by
    intro log next world after event invariant happened
    -- What happens outside keeps the invariant and what each of the threads relies on.
    obtain ⟨kept, rely, uncalled⟩ := happens_kept invariant.1 happened
    exact ⟨⟨kept, fun tag above => uncalled tag (invariant.2.1 tag above),
      fun answer inside room is => (rely 0).rooms _ _ (invariant.2.2 answer inside room is)⟩,
        fun tag _ _ => rely tag⟩
  permitted := fun sound _ _ _ => sound.invariant.1
  interferes := by
    intro log config thread choice tag call op next client other tag' call' op' next' client' after
      sound numbered
      permitted busy waiting apart ran change
    -- Two threads have different numbers.
    refine change.rely fun same => apart ?_
    obtain rfl : tag' = tag := same
    exact numbered.distinct waiting busy

/-- A world in which nothing has been done. -/
theorem kept_initial (now : Int) : Kept (.initial now) where
  leased := fun _ _ found => by cases found
  single := fun _ => Nat.zero_le _
  unclaimed := fun _ _ => rfl
  tells := fun _ _ found => by cases found
  landed := fun _ _ _ found => by cases found
  numbered := fun _ _ found => by cases found

variable {start config : Config createService} {log : List (Answer createService)} {now : Int}

/-- In every run of any number of callers, with calls cut off wherever they may be and journal
writes lost, an operation has made at most one room, and every `ok` answer for it names that room.
-/
theorem one_room (idle : start.Idle) (initial : start.store = .initial now)
    (run : Run (fun _ _ => True) start log config) (operationId : Text) :
    (config.store.roomsOf operationId).length ≤ 1
    ∧ ∀ answer ∈ log, answer.call.operationId = operationId → ∀ room, answer.reply = .ok room →
        config.store.roomsOf operationId = [room.roomId] := by
  have begin_ : createContract.invariant [] start.next start.store := by
    rw [initial]
    exact ⟨kept_initial now, fun _ _ => rfl, by simp⟩
  obtain ⟨kept, -, names⟩ := (createContract_holds.run idle begin_ run).invariant
  refine ⟨kept.single operationId, fun answer inside operation room is => ?_⟩
  have named : room.roomId ∈ config.store.roomsOf operationId :=
    operation ▸ names answer inside room is
  obtain ⟨only, rooms⟩ := List.length_eq_one_iff.mp
    (Nat.le_antisymm (kept.single operationId) (List.length_pos_of_mem named))
  rw [rooms, List.mem_singleton] at named
  rw [rooms, named]

/-! ## A tab that is closed -/

/-- A person's create, under one operation. -/
private def sameCreate : CreateCall := ⟨.human, lit "owner", lit "owner", 64, lit "op-1", none⟩

/-- Two tabs that each make the same create once. -/
private def twoTabs : Config createService where
  store := .initial 0
  threads
    | 0 => .idle (do let _ ← @Program.call createService.Calls sameCreate)
    | 1 => .idle (do let _ ← @Program.call createService.Calls sameCreate)
    | _ => .idle (.done ())
  next := 0

private def madeRoom : ChannelSummary := ⟨lit "!room", none, .joined, lit "1"⟩

/-- A tab takes a step; a lookup finds the room. -/
private def tabStep (thread : Nat) : Move createService :=
  .effect thread ⟨⟨false, .ready, some (lit "device")⟩, .works, some (.done madeRoom),
    some (.found madeRoom)⟩

/-- The first tab is closed when its room was made, before it hears of it; when its lease is over,
the second tab finds the room. -/
theorem one_room_closedTab : ∃ log config, Run (fun _ _ => True) twoTabs log config
    ∧ config.store.roomsOf (lit "op-1") = [lit "!room"]
    ∧ ∃ answer ∈ log, answer.reply = CreateResult.ok madeRoom := by
  -- The first tab is closed with its room on the way, and the second retries after the lease.
  have ran : ∃ log config, execute (fun _ _ => true) twoTabs
      (Move.start 0 :: List.replicate 4 (tabStep 0) ++ .outside (.land 0 madeRoom) :: .outside
        (.elapse 120000)
        :: .start 1 :: List.replicate 6 (tabStep 1)) = some (log, config)
      ∧ ∃ answer ∈ log, answer.call.operationId = lit "op-1"
      ∧ answer.reply = CreateResult.ok madeRoom :=
    ⟨_, _, rfl, _, List.mem_singleton_self _, rfl, rfl⟩
  obtain ⟨log, config, done, answer, inside, operation, reply⟩ := ran
  have idle : twoTabs.Idle
    | 0 => ⟨_, rfl⟩
    | 1 => ⟨_, rfl⟩
    | _ + 2 => ⟨_, rfl⟩
  have run : Run (fun _ _ => True) twoTabs log config :=
    (Run.of_execute done).mono fun _ _ _ => trivial
  -- The room is the only one, and the second tab answers with it.
  exact ⟨log, config, run, (one_room idle rfl run (lit "op-1")).2 answer inside operation madeRoom
    reply, answer, inside, reply⟩

end Khala.ChannelCreate
