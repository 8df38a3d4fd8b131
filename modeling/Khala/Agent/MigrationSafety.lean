import Khala.Agent.Migration

/-! What a migration leaves behind when it is cut off and started again any number of times. -/

namespace Khala.Migration

open Js Concurrent

/-! ## What the files say -/

def StateDir.entries (dir : StateDir) : List InboxEntry :=
  (dir.inbox.getD []).filterMap InboxLine.entry?

/-- How many entries of its inbox a directory counts as delivered. -/
def StateDir.delivered (dir : StateDir) : Nat := (cursorOf dir.cursor.join).deliveredCount

def StateDir.unread (dir : StateDir) : List InboxEntry := dir.entries.drop dir.delivered

/-- The room that the legacy files belong to, as far as it can be told. -/
def SessionState.room (state : SessionState) : Option Text :=
  state.sessionRoom.or ((state.root.inbox.getD []).getLast?.bind InboxLine.room)

/-- Where the unread entries of the legacy inbox start. A cursor without an inbox in the room's
directory is one that an interrupted migration has already moved. -/
def SessionState.legacyStart (state : SessionState) (key : Text) : Nat :=
  if state.root.cursor.isSome ∨ (state.channels key).inbox.isSome then state.root.delivered
  else (state.channels key).delivered

/-- What was read of a cursor file is read back. -/
theorem cursorOf_cursorOf (file : Option Cursor) :
    cursorOf (some (cursorOf file)) = cursorOf file := by
  unfold cursorOf
  cases file with
  | none => rfl
  | some cursor =>
    dsimp only
    split
    next => rfl
    next => rfl

/-! ## One operation at a time -/

section

variable {inv : SessionState → Prop} {α : Type} {post : α → SessionState → Prop}
    {state after : SessionState}

/-- An operation that changes the files, and the rest of the program. -/
theorem file_bind {op : StateOp} {rest : op.Reply → Migrating α} {reply : op.Reply}
    (ran : ∀ time, execState op time state = some (reply, after)) (before : inv state)
    (later : (rest reply).Throughout execState inv post after) :
    (file op >>= rest).Throughout execState inv post state :=
  Program.Throughout.bind (Program.Throughout.call ran before later.now later)

/-- An operation that only reads. -/
theorem read_bind {op : StateOp} {rest : op.Reply → Migrating α} {reply : op.Reply}
    (ran : ∀ time, execState op time state = some (reply, state))
    (later : (rest reply).Throughout execState inv post state) :
    (file op >>= rest).Throughout execState inv post state :=
  file_bind ran later.now later

/-- Reading entries changes nothing, and the rest goes on with them. -/
theorem readEntries_bind {directory : Directory} {rest : List InboxEntry → Migrating α}
    (later : (rest (state.dir directory).entries).Throughout execState inv post state) :
    (readEntries directory >>= rest).Throughout execState inv post state :=
  read_bind (fun _ => rfl) later

/-- Reading a cursor changes nothing, and the rest goes on with it. -/
theorem readCursor_bind {directory : Directory} {rest : Cursor → Migrating α}
    (later : (rest (cursorOf (state.dir directory).cursor.join)).Throughout execState
      inv post state) :
    (readCursor directory >>= rest).Throughout execState inv post state :=
  read_bind (fun _ => rfl) later

/-- Reading what is unread changes nothing, and the rest goes on with it. -/
theorem unread_bind {directory : Directory} {rest : List InboxEntry × Cursor → Migrating α}
    (later : (rest ((state.dir directory).unread,
      cursorOf (state.dir directory).cursor.join)).Throughout execState inv post state) :
    (unread directory >>= rest).Throughout execState inv post state := by
  unfold unread
  rw [Program.bind_assoc]
  refine readCursor_bind ?_
  rw [Program.bind_assoc]
  exact readEntries_bind later

/-- Telling the room changes nothing, and the rest goes on with it. -/
theorem legacyRoomId_bind {rest : Option Text → Migrating α}
    (later : (rest state.room).Throughout execState inv post state) :
    (legacyRoomId >>= rest).Throughout execState inv post state := by
  unfold legacyRoomId SessionState.room at *
  rw [Program.bind_assoc]
  refine read_bind (fun _ => rfl) ?_
  cases named : state.sessionRoom with
  | some saved =>
    rw [named] at later
    exact later
  | none =>
    rw [named] at later
    exact read_bind (fun _ => rfl) later

/-- Appending entries is one step, and none when there is nothing fresh. -/
theorem appendEntries_bind {directory : Directory} {entries : List InboxEntry}
    {rest : List InboxEntry → Migrating α} {fresh : List InboxEntry}
    (chosen : freshEntries ((state.dir directory).entries.map (·.eventId)) entries = fresh)
    (before : inv state) (none : fresh = [] → (rest []).Throughout execState inv post state)
    (some' : fresh ≠ [] →
      (rest fresh).Throughout execState inv post (state.setDir directory { state.dir directory with
        inbox := some ((state.dir directory).inbox.getD [] ++ fresh.map .record) })) :
    (appendEntries directory entries >>= rest).Throughout execState inv post state := by
  unfold appendEntries
  rw [Program.bind_assoc]
  refine readEntries_bind ?_
  dsimp only
  rw [chosen]
  by_cases nothing : fresh = []
  · subst nothing
    exact none rfl
  · have some : fresh.length ≠ 0 := fun empty => nothing (List.length_eq_zero_iff.mp empty)
    rw [if_pos some]
    exact file_bind (fun _ => rfl) before (some' nothing)

/-- Writing the metadata touches nothing else. -/
theorem publishMetadata_bind {key id : Text} {rest : Unit → Migrating α} (before : inv state)
    (later : ∀ metadata, (rest ()).Throughout execState inv post
      (state.setDir (.channel key) { state.channels key with channel := metadata })) :
    (publishMetadata (.channel key) id >>= rest).Throughout execState inv post state := by
  -- The metadata is read first, and is written only where it is not there.
  unfold publishMetadata
  rw [Program.bind_assoc]
  refine read_bind (fun _ => rfl) ?_
  rw [Program.bind_assoc]
  refine read_bind (fun _ => rfl) ?_
  split
  · -- The time of day is not settled, but it only goes into the metadata.
    refine ⟨before, fun time reply after ran => ?_⟩
    cases ran
    exact ⟨before, fun _ _ _ ran => by cases ran; exact later _⟩
  -- It is there already, so nothing changes.
  · have same : state.setDir (.channel key)
      { state.channels key with channel := (state.channels key).channel } = state := by
      simp [SessionState.setDir]
    have unchanged := later (state.channels key).channel
    rw [same] at unchanged
    exact unchanged

/-- Removing a file of the root. -/
def SessionState.withoutFile (state : SessionState) (name : StateName) : SessionState :=
  state.setDir .root (state.root.without name)

/-- A file that is removed is gone, and the others are there. -/
theorem has_without (dir : StateDir) (name other : StateName) :
    (dir.without name).has other = (decide (other ≠ name) && dir.has other) := by
  cases name <;> cases other <;> rfl

/-- Removing files is removing one and then the others. -/
theorem removeAll_cons {name : StateName} {names : List StateName}
    {post : Unit → SessionState → Prop} (before : inv state)
    (later : (removeAll names).Throughout execState inv post (state.withoutFile name)) :
    (removeAll (name :: names)).Throughout execState inv post state :=
  file_bind (fun _ => rfl) before later

/-- Removing files from the root, under a condition that each removal keeps. -/
theorem removeAll_of_kept (condition : SessionState → Prop) {post : Unit → SessionState → Prop}
    {order : List StateName} (implies : ∀ state, condition state → inv state)
    (kept : ∀ state name, condition state → condition (state.withoutFile name))
    (before : condition state)
    (done : ∀ after, condition after → (∀ name, name ∈ order ∨ state.root.has name = false →
      after.root.has name = false) → post () after) :
    (removeAll order).Throughout execState inv post state := by
  induction order generalizing state with
  | nil => exact ⟨implies state before, done state before fun name which => by simpa using which⟩
  | cons first rest ih =>
    apply removeAll_cons (implies state before)
    apply ih (kept state first before)
    intro after holds gone
    apply done after holds
    intro name which
    -- A file that was removed is not there any more, and one that was not there stays away.
    apply gone
    by_cases later : name ∈ rest
    · exact .inl later
    · refine .inr ((has_without state.root first name).trans ?_)
      rcases which with listed | absent
      · have same : name = first := by simpa [later] using listed
        simp [same]
      · simp [absent]

/-- What a migration does first: nothing, when the root has no file to move, else it asks for the
room. -/
theorem migrateLegacy_of_room {stateKey : Text → Text} {post : Migrated → SessionState → Prop}
    (before : inv state) (empty : (∀ name, state.root.has name = false) → post .nothing state)
    (unknown : (¬ ∀ name, state.root.has name = false) → state.room = none →
      (removeAll names >>= fun _ => pure .discarded).Throughout execState inv post state)
    (known : (¬ ∀ name, state.root.has name = false) → ∀ id, state.room = some id →
      (moveInto (.channel (stateKey id)) id state.root.cursor.isSome
        state.root.inbox.isSome).Throughout execState inv post state) :
    (migrateLegacy stateKey).Throughout execState inv post state := by
  -- The three files of the root are looked at, one after the other.
  unfold migrateLegacy
  refine read_bind (fun _ => rfl) (read_bind (fun _ => rfl) (read_bind (fun _ => rfl) ?_))
  split
  -- None of them is there, so there is nothing to migrate.
  next absent =>
    refine ⟨before, empty fun name => ?_⟩
    simp only [Bool.not_eq_true', Bool.or_eq_false_iff] at absent
    cases name
    · exact absent.1.1
    · exact absent.1.2
    · exact absent.2
  -- Some file is there, and what happens next depends on the room.
  next present =>
    have some' : ¬ ∀ name, state.root.has name = false := fun absent => present (by
      have cursor := absent .cursor
      have mode := absent .mode
      have inbox := absent .inbox
      simp only [SessionState.dir, cursor, mode, inbox, Bool.or_false, Bool.not_false])
    apply legacyRoomId_bind
    cases room : state.room with
    | none => exact unknown some' room
    | some id => exact known some' id room

end

/-! ## No room -/

/-- The legacy files go; nothing else changes. -/
structure Discarding (before state : SessionState) : Prop where
  session : state.sessionRoom = before.sessionRoom
  channels : state.channels = before.channels
  inbox : state.root.inbox = before.root.inbox ∨ state.root.inbox = none

/-- While files are discarded no room comes to be told. -/
theorem Discarding.room {before state : SessionState} (discarding : Discarding before state)
    (unknown : before.room = none) :
    state.room = none := by
  unfold SessionState.room at *
  rw [discarding.session]
  obtain ⟨noSession, noLine⟩ := Option.or_eq_none_iff.mp unknown
  rcases discarding.inbox with same | gone
  · rw [same]
    exact unknown
  · rw [noSession, gone]
    rfl

/-- Without a room the legacy files are removed, and the rooms are left as they are. -/
theorem migrateLegacy_discards {stateKey : Text → Text} {before : SessionState}
    (unknown : before.room = none) (state : SessionState) (discarding : Discarding before state) :
    (migrateLegacy stateKey).Throughout execState (Discarding before)
      (fun _ after => (∀ name, after.root.has name = false)
        ∧ after.channels = before.channels) state := by
  -- The files are removed while the channels stay as they are.
  apply migrateLegacy_of_room discarding
  · exact fun empty => ⟨empty, discarding.channels⟩
  · intro _ _
    apply Program.Throughout.bind
    refine removeAll_of_kept (Discarding before) (fun _ holds => holds)
      (fun state name holds => ?_) discarding (fun after holds gone => ?_)
    · refine ⟨holds.session, holds.channels, ?_⟩
      cases name
      · exact holds.inbox
      · exact holds.inbox
      · exact .inr rfl
    · exact ⟨holds, fun name => gone name (.inl (by cases name <;> simp [names])), holds.channels⟩
  -- The room is not known, and no removal makes it known.
  · intro _ id room
    rw [discarding.room unknown] at room
    cases room

/-! ## Moving into a directory without an inbox -/

/-- Before the inbox moves: where its unread entries start is never later than it was. -/
structure Waiting (before : SessionState) (key : Text) (state : SessionState) : Prop where
  session : state.sessionRoom = before.sessionRoom
  legacy : state.root.inbox = before.root.inbox
  nested : (state.channels key).inbox = none
  start : state.legacyStart key ≤ before.legacyStart key

/-- After the inbox moved: the cursor beside it is not later either. -/
structure Moved (before : SessionState) (key : Text) (state : SessionState) : Prop where
  legacy : ∀ name, state.root.has name = false
  nested : (state.channels key).inbox = before.root.inbox
  start : (state.channels key).delivered ≤ before.legacyStart key

def Moving (before : SessionState) (key : Text) (state : SessionState) : Prop :=
  Waiting before key state ∨ Moved before key state

section

variable {before state : SessionState} {key : Text} {α : Type} {post : α → SessionState → Prop}

/-- With a legacy cursor the unread entries start there. -/
theorem legacyStart_of_cursor (present : state.root.cursor.isSome) :
    state.legacyStart key = state.root.delivered :=
  if_pos (.inl present)

/-- Without a legacy cursor and inbox they start at the room's cursor. -/
theorem legacyStart_of_absent (absent : state.root.cursor = none)
    (nested : (state.channels key).inbox = none) :
    state.legacyStart key = (state.channels key).delivered :=
  if_neg (by simp [absent, nested])

/-- A room's directory is what it was set to. -/
theorem channels_setDir_self (dir : StateDir) :
    (state.setDir (.channel key) dir).channels key = dir :=
  Function.update_self ..

/-- How much is delivered is read of the cursor file. -/
theorem delivered_withCursor (dir : StateDir) (file : Option (Option Cursor)) :
    StateDir.delivered { dir with cursor := file } = (cursorOf file.join).deliveredCount := rfl

/-- How much is delivered is what the cursor says. -/
theorem delivered_writeCursor (dir : StateDir) (cursor : Cursor) :
    StateDir.delivered { dir with cursor := some (some cursor) } = (cursorOf (some cursor)).deliveredCount := by
  have held : Option.join (some (some cursor)) = some cursor := rfl
  rw [delivered_withCursor, held]

/-- The earlier one of two cursors. -/
theorem delivered_earlier (one two : Option Cursor) :
    (cursorOf (some (if (cursorOf one).deliveredCount <
    (cursorOf two).deliveredCount then cursorOf one else cursorOf two))).deliveredCount
      ≤ (cursorOf one).deliveredCount := by
  split
  next => rw [cursorOf_cursorOf]
  next earlier =>
    rw [cursorOf_cursorOf]
    exact Nat.not_lt.mp earlier

/-- A cursor is written beside the inbox that is still to come. -/
theorem Waiting.writeCursor (waiting : Waiting before key state)
    (present : state.root.cursor.isSome) (cursor : Cursor) :
    Waiting before key (state.setDir (.channel key) { state.channels key with cursor := some (some cursor) }) where
  session := waiting.session
  legacy := waiting.legacy
  nested := by
    rw [channels_setDir_self]
    exact waiting.nested
  start := by
    have start := waiting.start
    unfold SessionState.legacyStart at start ⊢
    rw [if_pos (.inl present)] at start ⊢
    exact start

/-- When both directories have a cursor, the earlier one ends up beside the inbox. -/
theorem settleCursors_bind {rest : Unit → Migrating α} (waiting : Waiting before key state)
    (present : state.root.cursor.isSome)
    (later : ∀ after, Waiting before key after → after.root = state.root →
      ((after.channels key).cursor.isSome →
        (after.channels key).delivered ≤ before.legacyStart key) →
        (rest ()).Throughout execState (Moving before key) post after) :
    (settleCursors (.channel key) >>= rest).Throughout execState
    (Moving before key) post state := by
  -- The cursor of the root does not lie past the start of what is unread.
  have start : state.root.delivered ≤ before.legacyStart key := by
    rw [← legacyStart_of_cursor present]
    exact waiting.start
  unfold settleCursors
  rw [Program.bind_assoc]
  refine read_bind (fun _ => rfl) ?_
  split
  -- Both cursors are there: the earlier one is kept where they differ.
  next =>
    simp only [Program.bind_assoc]
    refine readCursor_bind (readCursor_bind ?_)
    split
    next differ =>
      refine file_bind (fun _ => rfl) (.inl waiting) (later _ (waiting.writeCursor present _) rfl fun _ => ?_)
      rw [channels_setDir_self, delivered_writeCursor]
      exact Nat.le_trans (delivered_earlier _ _) start
    -- They agree, so there is nothing to write.
    next alike =>
      refine later state waiting rfl fun _ => ?_
      simp only [Cursor.differs, Bool.or_eq_true, bne_iff_ne, not_or, not_not] at alike
      exact Nat.le_trans (Nat.le_of_eq alike.1.symm) start
  -- The channel has no cursor, so there is none to settle.
  next absent => exact later state waiting rfl fun found => absurd found absent

/-- Writing the metadata leaves the legacy files waiting. -/
theorem Waiting.writeChannel (waiting : Waiting before key state)
    (metadata : Option ChannelMetadata) :
    Waiting before key (state.setDir (.channel key)
      { state.channels key with channel := metadata }) where
  session := waiting.session
  legacy := waiting.legacy
  nested := by
    rw [channels_setDir_self]
    exact waiting.nested
  start := by
    have start := waiting.start
    unfold SessionState.legacyStart at start ⊢
    rw [channels_setDir_self]
    exact start

/-- Once its cursor has moved, the legacy inbox starts at the room's cursor. -/
theorem legacyStart_withoutCursor (nested : (state.channels key).inbox = none) :
    (state.withoutFile .cursor).legacyStart key = (state.channels key).delivered := by
  unfold SessionState.legacyStart
  exact if_neg fun which => which.elim (fun found => by cases found) fun found => by
    have found : (state.channels key).inbox.isSome = true := found
    rw [nested] at found
    cases found

/-- The cursor has moved, or was not there. -/
theorem Waiting.withoutCursor (waiting : Waiting before key state)
    (ready : state.root.cursor.isSome → (state.channels key).delivered ≤ before.legacyStart key) :
    Waiting before key (state.withoutFile .cursor) where
  session := waiting.session
  legacy := waiting.legacy
  nested := waiting.nested
  start := by
    rw [legacyStart_withoutCursor waiting.nested]
    cases present : state.root.cursor with
    | some cursor => exact ready (by rw [present]; rfl)
    | none =>
      rw [← legacyStart_of_absent present waiting.nested]
      exact waiting.start

/-- Moving the cursor leaves the legacy inbox waiting. -/
theorem Waiting.moveCursor (waiting : Waiting before key state)
    (present : state.root.cursor.isSome) :
    Waiting before key
      ((state.setDir (.channel key)
        ((state.channels key).withFile state.root .cursor)).withoutFile .cursor)
    where
  session := waiting.session
  legacy := waiting.legacy
  nested := by
    -- Moving the cursor leaves the inbox of the channel as it is.
    show ((state.setDir (.channel key) _).channels key).inbox = none
    rw [channels_setDir_self]
    exact waiting.nested
  -- The start of what is unread is where the moved cursor says.
  start := by
    have nested :
      ((state.setDir (.channel key) ((state.channels key).withFile state.root .cursor)).channels
        key).inbox = none := by
      rw [channels_setDir_self]
      exact waiting.nested
    rw [legacyStart_withoutCursor nested, channels_setDir_self]
    have start := waiting.start
    rw [legacyStart_of_cursor present] at start
    exact start

/-- One file of the root: it goes, or moves to where it is missing. -/
theorem moveFiles_cons {inv : SessionState → Prop} {name : StateName} {names : List StateName}
    {post : Unit → SessionState → Prop} (holds : inv state)
    (kept : (state.channels key).has name = true →
      (moveFiles (.channel key) names).Throughout execState inv post (state.withoutFile name))
    (moved : state.root.has name = true → (state.channels key).has name = false →
      (moveFiles (.channel key) names).Throughout execState inv post
      ((state.setDir (.channel key) ((state.channels key).withFile state.root name)).withoutFile
        name))
    (absent : state.root.has name = false → (state.channels key).has name = false →
      (moveFiles (.channel key) names).Throughout execState inv post state) :
    (moveFiles (.channel key) (name :: names)).Throughout execState inv post state := by
  unfold moveFiles
  refine read_bind (fun _ => rfl) ?_
  split
  next found => exact file_bind (fun _ => rfl) holds (kept found)
  next missing =>
    have missing : (state.channels key).has name = false := Bool.eq_false_iff.mpr missing
    cases found : state.root.has name with
    | true => exact file_bind (fun _ => by simp only [execState, found, if_true]; rfl) holds (moved found missing)
    | false => exact read_bind (fun _ => if_neg (by simp [found])) (absent found missing)

/-- Removing the mode leaves the legacy inbox waiting. -/
theorem Waiting.withoutMode (waiting : Waiting before key state) :
    Waiting before key (state.withoutFile .mode) :=
  ⟨waiting.session, waiting.legacy, waiting.nested, waiting.start⟩

/-- Moving the mode leaves the legacy inbox waiting. -/
theorem Waiting.moveMode (waiting : Waiting before key state) :
    Waiting before key
      ((state.setDir (.channel key)
        ((state.channels key).withFile state.root .mode)).withoutFile .mode) := by
  have waiting' :
    Waiting before key (state.setDir (.channel key)
      ((state.channels key).withFile state.root .mode)) := by
    refine ⟨waiting.session, waiting.legacy, ?_, ?_⟩
    · rw [channels_setDir_self]
      exact waiting.nested
    · have start := waiting.start
      unfold SessionState.legacyStart at start ⊢
      rw [channels_setDir_self]
      exact start
  exact waiting'.withoutMode

/-- The inbox moves when nothing else is left in the root. -/
theorem moveFiles_inbox (waiting : Waiting before key state) (noCursor : state.root.cursor = none)
    (noMode : state.root.mode = none) :
    (moveFiles (.channel key) [.inbox]).Throughout execState (Moving before key)
    (fun _ => Moved before key) state := by
  -- With the cursor gone, the start of what is unread is that of the channel's own.
  have start := waiting.start
  rw [legacyStart_of_absent noCursor waiting.nested] at start
  apply moveFiles_cons (.inl waiting)
  -- The channel has no inbox yet, so the file is moved.
  · intro found
    have nested : (state.channels key).inbox.isSome = true := found
    rw [waiting.nested] at nested
    cases nested
  · intro _ _
    have moved : Moved before key
        ((state.setDir (.channel key)
          ((state.channels key).withFile state.root .inbox)).withoutFile .inbox) := by
      refine ⟨fun name => ?_, ?_, ?_⟩
      · refine (has_without state.root .inbox name).trans ?_
        cases name <;> simp [StateDir.has, noCursor, noMode]
      · show ((state.setDir (.channel key) _).channels key).inbox = _
        rw [channels_setDir_self]
        exact waiting.legacy
      · show ((state.setDir (.channel key) _).channels key).delivered ≤ _
        rw [channels_setDir_self]
        exact start
    exact ⟨.inr moved, moved⟩
  -- There is no inbox in the root, so all has been moved already.
  · intro absent _
    have noInbox : state.root.inbox = none :=
      Option.not_isSome_iff_eq_none.mp (Bool.eq_false_iff.mp absent)
    have moved : Moved before key state := by
      refine ⟨fun name => ?_, ?_, start⟩
      · cases name <;> simp [StateDir.has, noCursor, noMode, noInbox]
      · rw [waiting.nested, ← waiting.legacy, noInbox]
    exact ⟨.inr moved, moved⟩

/-- Moving the mode and the inbox ends with the inbox moved. -/
theorem moveFiles_mode (waiting : Waiting before key state) (noCursor : state.root.cursor = none) :
    (moveFiles (.channel key) [.mode, .inbox]).Throughout execState (Moving before key)
    (fun _ => Moved before key) state := by
  apply moveFiles_cons (.inl waiting)
  · exact fun _ => moveFiles_inbox waiting.withoutMode noCursor rfl
  · exact fun _ _ => moveFiles_inbox waiting.moveMode noCursor rfl
  · exact fun absent _ =>
      moveFiles_inbox waiting noCursor
        (Option.not_isSome_iff_eq_none.mp (Bool.eq_false_iff.mp absent))

/-- The three files, one after another: the inbox comes last. -/
theorem moveFiles_names (waiting : Waiting before key state)
    (ready : state.root.cursor.isSome → (state.channels key).cursor.isSome →
      (state.channels key).delivered ≤ before.legacyStart key) :
    (moveFiles (.channel key) names).Throughout execState (Moving before key)
    (fun _ => Moved before key) state := by
  apply moveFiles_cons (.inl waiting)
  · exact fun found => moveFiles_mode (waiting.withoutCursor fun present => ready present found) rfl
  · exact fun present _ => moveFiles_mode (waiting.moveCursor present) rfl
  · exact fun absent _ =>
      moveFiles_mode waiting (Option.not_isSome_iff_eq_none.mp (Bool.eq_false_iff.mp absent))

/-- While legacy files wait the same room is told. -/
theorem Waiting.room (waiting : Waiting before key state) : state.room = before.room := by
  unfold SessionState.room
  rw [waiting.session, waiting.legacy]

/-- A migration into a directory without an inbox ends with the inbox moved there. -/
theorem migrateLegacy_moves {stateKey : Text → Text} {id : Text} (known : before.room = some id)
    (state : SessionState) (moving : Moving before (stateKey id) state) :
    (migrateLegacy stateKey).Throughout execState (Moving before (stateKey id))
      (fun _ => Moved before (stateKey id)) state := by
  apply migrateLegacy_of_room moving
  · intro empty
    rcases moving with waiting | moved
    · have noCursor : state.root.cursor = none :=
        Option.not_isSome_iff_eq_none.mp (Bool.eq_false_iff.mp (empty .cursor))
      have noInbox : state.root.inbox = none :=
        Option.not_isSome_iff_eq_none.mp (Bool.eq_false_iff.mp (empty .inbox))
      refine ⟨empty, ?_, ?_⟩
      · rw [waiting.nested, ← waiting.legacy, noInbox]
      · rw [← legacyStart_of_absent noCursor waiting.nested]
        exact waiting.start
    · exact moved
  · intro present unknown
    rcases moving with waiting | moved
    · rw [waiting.room, known] at unknown
      cases unknown
    · exact absurd moved.legacy present
  · intro present id' room
    rcases moving with waiting | moved
    · rw [waiting.room, known, Option.some.injEq] at room
      subst room
      have absent : (state.dir (.channel (stateKey id))).has .inbox = false :=
        Option.isSome_eq_false_iff.mpr (by
        rw [Option.isNone_iff_eq_none]
        exact waiting.nested)
      -- What follows the cursors, in whichever state they were settled.
      have rest : ∀ state, Waiting before (stateKey id) state →
          (state.root.cursor.isSome → (state.channels (stateKey id)).cursor.isSome →
            (state.channels (stateKey id)).delivered ≤ before.legacyStart (stateKey id)) →
          (publishMetadata (.channel (stateKey id)) id >>= fun _ =>
            moveFiles (.channel (stateKey id)) names
            >>= fun _ => pure Migrated.moved).Throughout execState (Moving before (stateKey id))
              (fun _ => Moved before (stateKey id)) state := by
        intro state waiting ready
        apply publishMetadata_bind (.inl waiting)
        intro metadata
        apply Program.Throughout.bind
        apply (moveFiles_names (waiting.writeChannel metadata) ?_).mono
        · intro _ after moved
          exact ⟨.inr moved, moved⟩
        · rw [channels_setDir_self]
          exact ready
      unfold moveInto
      refine read_bind (fun _ => rfl) ?_
      rw [absent]
      cases present : state.root.cursor.isSome with
      | true =>
        exact settleCursors_bind waiting present fun after waiting' _ ready =>
          rest after waiting' fun _ => ready
      | false => exact rest state waiting fun found => by rw [present] at found; cases found
    · exact absurd moved.legacy present

end

/-! ## Merging into an inbox -/

/-- The inbox of the room with the unread entries of the legacy inbox that it does not have. -/
def mergedInbox (before : SessionState) (key : Text) : List InboxLine :=
  (before.channels key).inbox.getD []
    ++ (freshEntries ((before.channels key).entries.map (·.eventId)) before.root.unread).map .record

/-- Before the entries are appended. -/
structure Unmerged (before : SessionState) (key : Text) (state : SessionState) : Prop where
  session : state.sessionRoom = before.sessionRoom
  cursor : (state.channels key).cursor = (before.channels key).cursor
  nested : (state.channels key).inbox = (before.channels key).inbox
  legacy : state.root.inbox = before.root.inbox ∧ state.root.cursor = before.root.cursor

/-- After they were: the legacy inbox goes before its cursor. -/
structure Merged (before : SessionState) (key : Text) (state : SessionState) : Prop where
  session : state.sessionRoom = before.sessionRoom
  cursor : (state.channels key).cursor = (before.channels key).cursor
  nested : (state.channels key).inbox = some (mergedInbox before key)
  legacy : state.root.inbox = before.root.inbox ∧ state.root.cursor = before.root.cursor
    ∨ state.root.inbox = none

def Merging (before : SessionState) (key : Text) (state : SessionState) : Prop :=
  Unmerged before key state ∨ Merged before key state

section

variable {before state : SessionState} {key : Text} {α : Type} {post : α → SessionState → Prop}

/-- A merged inbox holds the room's entries and then the fresh ones. -/
theorem entries_mergedInbox (dir : StateDir) (merged : dir.inbox = some (mergedInbox before key)) :
    dir.entries = (before.channels key).entries
      ++ freshEntries ((before.channels key).entries.map (·.eventId)) before.root.unread := by
  have records : ∀ entries : List InboxEntry,
    (entries.map InboxLine.record).filterMap InboxLine.entry? = entries := by
    intro entries
    rw [List.filterMap_map]
    exact List.filterMap_some
  rw [StateDir.entries, merged, Option.getD_some, mergedInbox, List.filterMap_append, records]
  rfl

/-- Without a legacy inbox there is nothing to append. -/
theorem mergedInbox_of_absent (exists' : (before.channels key).inbox.isSome)
    (absent : before.root.inbox = none) :
    (before.channels key).inbox = some (mergedInbox before key) := by
  obtain ⟨lines, found⟩ := Option.isSome_iff_exists.mp exists'
  simp [mergedInbox, StateDir.unread, StateDir.entries, absent, found, freshEntries]

/-- Appending the same entries again adds nothing. -/
theorem freshEntries_merged (dir : StateDir) (merged : dir.inbox = some (mergedInbox before key)) :
    freshEntries (dir.entries.map (·.eventId)) before.root.unread = [] := by
  apply freshEntries_eq_nil
  intro entry inside
  rw [entries_mergedInbox dir merged, List.map_append, List.mem_append]
  rcases (mem_freshEntries _ before.root.unread).2 entry inside with known | ⟨kept, found, same⟩
  · exact .inl known
  · exact .inr (List.mem_map.mpr ⟨kept, found, same⟩)

/-- While inboxes are merged the room's is there. -/
theorem Merging.present (exists' : (before.channels key).inbox.isSome)
    (merging : Merging before key state) :
    (state.channels key).inbox.isSome := by
  rcases merging with unmerged | merged
  · rw [unmerged.nested]
    exact exists'
  · rw [merged.nested]
    rfl

/-- A root without an inbox has nothing left to merge. -/
theorem Merging.merged (exists' : (before.channels key).inbox.isSome)
    (merging : Merging before key state) (absent : state.root.inbox = none) :
    Merged before key state := by
  rcases merging with unmerged | merged
  · refine ⟨unmerged.session, unmerged.cursor, ?_, .inr absent⟩
    rw [unmerged.nested, mergedInbox_of_absent exists' (unmerged.legacy.1.symm.trans absent)]
  · exact merged

/-- Writing the metadata leaves the merge under way. -/
theorem Merging.writeChannel (merging : Merging before key state)
    (metadata : Option ChannelMetadata) :
    Merging before key (state.setDir (.channel key)
      { state.channels key with channel := metadata }) := by
  rcases merging with unmerged | merged
  · refine .inl ⟨unmerged.session, ?_, ?_, unmerged.legacy⟩
    · rw [channels_setDir_self]
      exact unmerged.cursor
    · rw [channels_setDir_self]
      exact unmerged.nested
  · refine .inr ⟨merged.session, ?_, ?_, merged.legacy⟩
    · rw [channels_setDir_self]
      exact merged.cursor
    · rw [channels_setDir_self]
      exact merged.nested

/-- The append, if the legacy inbox is still there. -/
theorem appendEntries_merging {rest : List InboxEntry → Migrating α}
    (exists' : (before.channels key).inbox.isSome) (merging : Merging before key state)
    (legacy : state.root.inbox = before.root.inbox ∧ state.root.cursor = before.root.cursor)
    (later : ∀ fresh after, Merged before key after → after.root = state.root →
      (rest fresh).Throughout execState (Merging before key) post after) :
    (appendEntries (.channel key) state.root.unread >>= rest).Throughout execState
    (Merging before key) post state := by
  -- What is unread in the root is as it was at the beginning.
  have same : state.root.unread = before.root.unread := by
    simp only [StateDir.unread, StateDir.entries, StateDir.delivered, legacy.1, legacy.2]
  rw [same]
  -- The merge comes first, or was done by an earlier attempt.
  rcases merging with unmerged | merged
  · have known : (state.channels key).entries = (before.channels key).entries := by
      simp only [StateDir.entries, unmerged.nested]
    refine appendEntries_bind rfl (.inl unmerged) (fun nothing => later [] state ?_ rfl)
      (fun _ => later _ _ ?_ rfl)
    -- Nothing of it is new, so the inbox of the channel is the merged one already.
    · refine ⟨unmerged.session, unmerged.cursor, ?_, .inl legacy⟩
      obtain ⟨lines, found⟩ := Option.isSome_iff_exists.mp exists'
      change freshEntries ((state.channels key).entries.map (·.eventId)) _ = [] at nothing
      rw [known] at nothing
      rw [unmerged.nested, mergedInbox, nothing, found]
      simp
    -- What is new is appended in one write.
    · refine ⟨unmerged.session, ?_, ?_, .inl legacy⟩
      · rw [channels_setDir_self]
        exact unmerged.cursor
      · rw [channels_setDir_self]
        show some ((state.channels key).inbox.getD []
          ++ (freshEntries ((state.channels key).entries.map _) _).map _) = _
        rw [known, unmerged.nested]
        rfl
  -- After the merge nothing is new, so nothing is appended twice.
  · refine appendEntries_bind (freshEntries_merged _ merged.nested) (.inr merged)
      (fun _ => later [] state merged rfl)
      (fun some' => absurd rfl some')

/-- Once the inbox has gone, the other files may go in any order. -/
theorem removeAll_merged_of_gone {order : List StateName} (merged : Merged before key state)
    (gone : state.root.inbox = none) (others : .cursor ∈ order ∧ .mode ∈ order) :
    (removeAll order).Throughout execState (Merging before key)
      (fun _ after => (∀ name, after.root.has name = false) ∧ Merged before key after) state := by
  -- The inbox is gone first, so no later removal can undo the merge.
  refine removeAll_of_kept (fun state => Merged before key state ∧ state.root.inbox = none)
    (fun _ holds => .inr holds.1)
      (fun state name holds => ?_) ⟨merged, gone⟩ (fun after holds absent => ?_)
  · have inbox : (state.withoutFile name).root.inbox = none := by
      cases name
      · exact holds.2
      · exact holds.2
      · rfl
    exact ⟨⟨holds.1.session, holds.1.cursor, holds.1.nested, .inr inbox⟩, inbox⟩
  -- At the end none of the files is left.
  · refine ⟨fun name => ?_, holds.1⟩
    cases name
    · exact absent .cursor (.inl others.1)
    · exact absent .mode (.inl others.2)
    · exact absent .inbox
        (.inr (Option.isSome_eq_false_iff.mpr (Option.isNone_iff_eq_none.mpr gone)))

/-- The inbox goes first. -/
theorem removeAll_merged (merged : Merged before key state) :
    (removeAll [.inbox, .cursor, .mode]).Throughout execState (Merging before key)
      (fun _ after => (∀ name, after.root.has name = false) ∧ Merged before key after) state := by
  have gone : Merged before key (state.withoutFile .inbox) :=
    ⟨merged.session, merged.cursor, merged.nested, .inr rfl⟩
  exact removeAll_cons (.inr merged) (removeAll_merged_of_gone gone rfl ⟨by simp, by simp⟩)

/-- Merging the inboxes ends with the legacy files removed and the inbox merged. -/
theorem mergeInbox_merging (exists' : (before.channels key).inbox.isSome)
    (merging : Merging before key state) :
    (mergeInbox (.channel key) state.root.inbox.isSome).Throughout execState (Merging before key)
      (fun _ after => (∀ name, after.root.has name = false) ∧ Merged before key after) state := by
  -- Without an inbox in the root only the other files are left to remove.
  unfold mergeInbox
  cases found : state.root.inbox with
  | none => exact removeAll_merged (merging.merged exists' found)
  | some lines =>
    -- The root still has what it had, since its inbox is there.
    have legacy : state.root.inbox = before.root.inbox
      ∧ state.root.cursor = before.root.cursor := by
      rcases merging with unmerged | merged
      · exact unmerged.legacy
      · rcases merged.legacy with same | gone
        · exact same
        · rw [found] at gone
          cases gone
    -- What is unread there is merged, and then the files are removed.
    refine unread_bind ?_
    exact appendEntries_merging exists' merging legacy fun _ after merged _ =>
      removeAll_merged merged

/-- What is still known of the room. -/
theorem Merging.room (merging : Merging before key state) :
    state.room = before.room ∨ state.root.inbox = none ∧ state.room = before.sessionRoom := by
  -- The room of the session is not touched.
  have session : state.sessionRoom = before.sessionRoom := by
    rcases merging with unmerged | merged
    · exact unmerged.session
    · exact merged.session
  -- The inbox of the root is as it was, or gone.
  have legacy : state.root.inbox = before.root.inbox ∨ state.root.inbox = none := by
    rcases merging with unmerged | merged
    · exact .inl unmerged.legacy.1
    · exact merged.legacy.imp_left And.left
  unfold SessionState.room
  rw [session]
  rcases legacy with same | gone
  · exact .inl (by rw [same])
  · exact .inr ⟨gone, by simp [gone]⟩

/-- A migration into a directory with an inbox ends with the unread entries merged into it. -/
theorem migrateLegacy_merges {stateKey : Text → Text} {id : Text} (known : before.room = some id)
    (exists' : (before.channels (stateKey id)).inbox.isSome) (state : SessionState)
    (merging : Merging before (stateKey id) state) :
    (migrateLegacy stateKey).Throughout execState (Merging before (stateKey id))
      (fun _ after => (∀ name, after.root.has name = false)
        ∧ Merged before (stateKey id) after) state := by
  apply migrateLegacy_of_room merging
  -- Nothing is left in the root, so the merge was done before.
  · intro empty
    exact ⟨empty,
      merging.merged exists'
      (Option.not_isSome_iff_eq_none.mp (Bool.eq_false_iff.mp (empty .inbox)))⟩
  · -- The room is not known any more once the inbox that named it has gone.
    intro _ unknown
    rcases merging.room with same | ⟨gone, _⟩
    · rw [same, known] at unknown
      cases unknown
    · apply Program.Throughout.bind
      refine (removeAll_merged_of_gone (merging.merged exists' gone) gone
        ⟨by simp [names], by simp [names]⟩).mono fun _ after done => ?_
      exact ⟨.inr done.2, done⟩
  -- The room is the same one, whichever file named it.
  · intro _ id' room
    have same : id' = id := by
      rcases merging.room with same | ⟨_, session⟩
      · rw [same, known] at room
        exact (Option.some.inj room).symm
      · rw [session] at room
        rw [SessionState.room, room] at known
        exact Option.some.inj known
    subst same
    unfold moveInto
    refine read_bind (fun _ => rfl) ?_
    -- The channel has an inbox, so the inboxes are merged.
    have found : (state.dir (.channel (stateKey id'))).has .inbox = true := merging.present exists'
    rw [found]
    apply publishMetadata_bind merging
    intro metadata
    apply Program.Throughout.bind
    exact (mergeInbox_merging exists' (merging.writeChannel metadata)).mono fun _ after done =>
      ⟨.inr done.2, done⟩

end

/-! ## Any number of crashes -/

def StateDir.hasDelivered (dir : StateDir) (eventId : Text) : Prop :=
  ∃ entry ∈ dir.entries.take dir.delivered, entry.eventId = eventId

/-- The cursor stands past the end of the inbox beside it. -/
def StateDir.pastEnd (dir : StateDir) : Prop :=
  dir.inbox.isSome ∧ dir.entries.length < dir.delivered

/-- What a migration owes to the entries that were not delivered yet. -/
structure KeepsUnread (before after : SessionState) (key : Text) : Prop where
  legacy : ∀ entry ∈ before.root.entries.drop (before.legacyStart key),
    (∃ kept ∈ (after.channels key).unread, kept.eventId = entry.eventId
        ∧ (kept ∈ before.root.entries ∨ kept ∈ (before.channels key).entries))
      ∨ (before.channels key).hasDelivered entry.eventId ∨ (before.channels key).pastEnd
  nested : ∀ entry ∈ (before.channels key).unread, entry ∈ (after.channels key).unread
  once : (before.root.entries.map (·.eventId)).Nodup →
    ((before.channels key).entries.map (·.eventId)).Nodup →
    ((after.channels key).entries.map (·.eventId)).Nodup

section

variable {before after : SessionState} {key : Text}

/-- An inbox that was moved keeps all that was unread. -/
theorem Moved.keeps (moved : Moved before key after) (absent : (before.channels key).inbox = none) :
    KeepsUnread before after key := by
  -- The channel has exactly the entries of the root.
  have entries :
    (after.channels key).entries = before.root.entries := by
    rw [StateDir.entries, moved.nested]; rfl
  have empty : (before.channels key).entries = [] := by rw [StateDir.entries, absent]; rfl
  refine ⟨fun entry inside => .inl ⟨entry, ?_, rfl, .inl (List.mem_of_mem_drop inside)⟩,
    fun entry inside => ?_, fun once _ => ?_⟩
  · -- The cursor beside the moved inbox is not later than where the unread entries started.
    rw [StateDir.unread, entries]
    have split : before.legacyStart key
        = (after.channels key).delivered +
          (before.legacyStart key - (after.channels key).delivered) :=
      (Nat.add_sub_cancel' moved.start).symm
    rw [split, ← List.drop_drop] at inside
    exact List.mem_of_mem_drop inside
  -- It had none of its own, so none of those can get lost.
  · rw [StateDir.unread, empty, List.drop_nil] at inside
    cases inside
  · rw [entries]
    exact once

/-- An inbox that was merged keeps all that was unread. -/
theorem Merged.keeps (merged : Merged before key after)
    (exists' : (before.channels key).inbox.isSome) :
    KeepsUnread before after key := by
  -- The channel has its own entries, and behind them what was new in the root.
  have entries := entries_mergedInbox (after.channels key) merged.nested
  have delivered : (after.channels key).delivered = (before.channels key).delivered := by
    rw [StateDir.delivered, merged.cursor, StateDir.delivered]
  have start : before.legacyStart key = before.root.delivered := if_pos (.inr exists')
  refine ⟨fun entry inside => ?_, fun entry inside => ?_, fun _ once => ?_⟩
  · rw [start] at inside
    rw [StateDir.unread, entries, delivered]
    rcases (mem_freshEntries ((before.channels key).entries.map (·.eventId)) before.root.unread).2
      entry inside with
      known | ⟨kept, found, same⟩
    · -- The room's inbox had it already, delivered or not.
      obtain ⟨kept, member, same⟩ := List.mem_map.mp known
      rw [← List.take_append_drop (before.channels key).delivered (before.channels key).entries,
        List.mem_append] at member
      rcases member with early | late
      · exact .inr (.inl ⟨kept, early, same⟩)
      · exact .inl ⟨kept, (by rw [List.drop_append]; exact List.mem_append_left _ late), same,
          .inr (List.mem_of_mem_drop late)⟩
    -- The entry is new: it comes last, and is unread where the cursor is not past the log.
    · by_cases past : (before.channels key).entries.length < (before.channels key).delivered
      · exact .inr (.inr ⟨exists', past⟩)
      · have within :=
          (mem_freshEntries ((before.channels key).entries.map (·.eventId)) before.root.unread).1
          kept found
        refine .inl ⟨kept, ?_, same, .inl (List.mem_of_mem_drop within)⟩
        rw [List.drop_append_of_le_length (Nat.not_lt.mp past)]
        exact List.mem_append_right _ found
  -- The channel's own unread entries are still unread.
  · rw [StateDir.unread, entries, delivered, List.drop_append]
    exact List.mem_append_left _ inside
  -- No identifier comes twice, as only new ones are appended.
  · obtain ⟨distinct, apart⟩ :=
      freshEntries_distinct ((before.channels key).entries.map (·.eventId)) before.root.unread
    rw [entries, List.map_append, List.nodup_append]
    refine ⟨once, distinct, ?_⟩
    rintro one old two new rfl
    obtain ⟨entry, inside, rfl⟩ := List.mem_map.mp new
    exact apart entry inside old

end

/-- However often a migration is cut off and started again, once it has run to its end no legacy
file is left, and the entries that were still to be delivered still are, each once. -/
theorem migrateLegacy_keeps_unread (stateKey : Text → Text) {before after : SessionState}
    {result : Migrated} (runs : Reruns execState (migrateLegacy stateKey) before result after) :
    (∀ name, after.root.has name = false) ∧
      match before.room with
      | none => after.channels = before.channels
      | some id => KeepsUnread before after (stateKey id) := by
  -- By whether the room is known, and then whether the channel has an inbox.
  cases room : before.room with
  | none =>
    have discarded := Reruns.post (migrateLegacy_discards room) runs ⟨rfl, rfl, .inl rfl⟩
    exact discarded
  | some id =>
    cases inbox : (before.channels (stateKey id)).inbox with
    | none =>
      have moved := Reruns.post (migrateLegacy_moves room) runs (.inl ⟨rfl, rfl, inbox, le_rfl⟩)
      exact ⟨moved.legacy, moved.keeps inbox⟩
    | some lines =>
      have exists' : (before.channels (stateKey id)).inbox.isSome := by rw [inbox]; rfl
      obtain ⟨gone, merged⟩ :=
        Reruns.post (migrateLegacy_merges room exists') runs (.inl ⟨rfl, rfl, rfl, rfl, rfl⟩)
      exact ⟨gone, merged.keeps exists'⟩

/-! ## Layouts where unread entries are not kept -/

/-- Every entry unread in the legacy inbox or in the room's is there and still to be delivered, or
was delivered there. -/
def KeepsAll (before after : SessionState) (key : Text) : Prop :=
  ∀ entry ∈ before.root.unread ++ (before.channels key).unread,
    (∃ kept ∈ (after.channels key).unread, kept.eventId = entry.eventId)
      ∨ (before.channels key).hasDelivered entry.eventId

instance (dir : StateDir) (eventId : Text) : Decidable (dir.hasDelivered eventId) :=
  inferInstanceAs (Decidable (∃ entry ∈ dir.entries.take dir.delivered, entry.eventId = eventId))

instance (before after : SessionState) (key : Text) : Decidable (KeepsAll before after key) :=
  inferInstanceAs (Decidable (∀ entry ∈ before.root.unread ++ (before.channels key).unread,
    (∃ kept ∈ (after.channels key).unread, kept.eventId = entry.eventId)
      ∨ (before.channels key).hasDelivered entry.eventId))

section

private def sentEntry (eventId : String) : InboxEntry :=
  ⟨lit eventId, lit "!room", lit "2026-10-05T12:00:00.000Z", lit "@human:test", lit "Human",
    .human, .message, lit "hi", false⟩

private def sentLines : List InboxLine := [.record (sentEntry "$1"), .record (sentEntry "$2")]

private def cursorAt (count : Nat) : Option (Option Cursor) := some (some ⟨none, count, none, none⟩)

/-- A cursor without an inbox in the room's directory, as a migration cut off after moving the
cursor leaves it. -/
private def movedCursor : SessionState :=
  ⟨none, none, ⟨some sentLines, none, none, none⟩, fun key =>
    if key = lit "!room" then ⟨none, cursorAt 1, none, none⟩ else ⟨none, none, none, none⟩⟩

/-- A cursor past the end of the inbox beside it. -/
private def pastEnd : SessionState :=
  ⟨none, none, ⟨some sentLines, none, none, none⟩, fun _ => ⟨some [], cursorAt 2, none, none⟩⟩

/-- A legacy inbox whose newest line names no room. -/
private def nameless : SessionState :=
  ⟨none, none, ⟨some (sentLines ++ [.other none]), none, none, none⟩, fun _ =>
    ⟨none, none, none, none⟩⟩

/-- Whether an uninterrupted migration leaves all unread entries of the room. -/
private def keepsAllAlone (before : SessionState) : Bool :=
  ((migrateLegacy id).alone execState (lit "2026-10-05T12:00:00.000Z") before).all fun final =>
    KeepsAll before final.2 (lit "!room")

/-- A run that loses entries when alone is a run with crashes. -/
private theorem runs_of_alone {before : SessionState} (lost : keepsAllAlone before = false) :
    ∃ result after, Reruns execState (migrateLegacy id) before result after
      ∧ ¬ KeepsAll before after (lit "!room") := by
  unfold keepsAllAlone at lost
  cases ran : (migrateLegacy id).alone execState (lit "2026-10-05T12:00:00.000Z") before with
  | none =>
    rw [ran] at lost
    cases lost
  | some final =>
    rw [ran, Option.all_some, decide_eq_false_iff_not] at lost
    exact ⟨final.1, final.2, .ends (.of_alone ran), lost⟩

/-- Not every layout keeps all unread entries: a cursor that was moved already stays in place, as
does one past the end of its inbox, and without a room the legacy files are discarded. -/
theorem migrateLegacy_skips_unread :
    (∃ result after, Reruns execState (migrateLegacy id) movedCursor result after
      ∧ ¬ KeepsAll movedCursor after (lit "!room"))
      ∧ (∃ result after, Reruns execState (migrateLegacy id) pastEnd result after
        ∧ ¬ KeepsAll pastEnd after (lit "!room"))
      ∧ ∃ result after, Reruns execState (migrateLegacy id) nameless result after
      ∧ ¬ KeepsAll nameless after (lit "!room") :=
  ⟨runs_of_alone (by decide +kernel), runs_of_alone (by decide +kernel),
    runs_of_alone (by decide +kernel)⟩

/-- What it owes it does keep, also when it is cut off first. -/
theorem migrateLegacy_keeps_unread_moved :
    ∃ result after, Reruns execState (migrateLegacy id) movedCursor result after
    ∧ (∀ name, after.root.has name = false) ∧ KeepsUnread movedCursor after (lit "!room") := by
  obtain ⟨result, after, runs, -⟩ :
    ∃ result after, Reruns execState (migrateLegacy id) movedCursor result after
      ∧ ¬ KeepsAll movedCursor after (lit "!room") := runs_of_alone (by decide +kernel)
  have again := Reruns.crashes (.here (migrateLegacy id) movedCursor) runs
  exact ⟨result, after, again, migrateLegacy_keeps_unread id again⟩

end

end Khala.Migration
