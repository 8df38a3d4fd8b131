import Khala.Agent.Inbox
import Mathlib.Data.List.Infix

/-! How the delivered and the nudged position of one inbox move while calls run one after another.
-/

namespace Khala

open Js Concurrent

/-- What one deliverer or the writer does without interruption. -/
inductive InboxStep
  | append (added : List InboxEntry)
  | deliver (count : Nat) (shown : Bool)
  | markNudged (expected : Cursor) (count : Nat)
  | skipBacklog

/-- The calls a step makes; a delivery hands out any prefix of what is unread. -/
def InboxStep.calls : InboxStep → Deliverer Unit
  | .append _ => pure ()
  | .deliver count shown => do
    let (entries, cursor) ← Deliverer.unread
    discard <| Deliverer.advanceCursor cursor (entries.take count) shown
  | .markNudged expected count => Deliverer.markNudged expected count
  | .skipBacklog => Deliverer.skipBacklog 2

/-- The entries that an answered call covers. -/
def coveredBy : (call : InboxCall) → call.Reply → List InboxEntry
  | .advanceCursor _ delivered _, .ok (some _) => delivered
  | _, _ => []

/-- Runs calls one after another, every file operation working, and collects the entries they cover.
-/
def serve {α : Type} : Program inboxCalls α → InboxFiles → Option (List InboxEntry × InboxFiles)
  | .done _, files => some ([], files)
  | .perform call next, files => do
    let (reply, after) ← (inboxBody call).alone execInbox .works files
    let (covered, last) ← serve (next reply) after
    return (coveredBy call reply ++ covered, last)

/-- The entries a step covers and the files after it. -/
def takeStep (files : InboxFiles) : InboxStep → Option (List InboxEntry × InboxFiles)
  | .append added => (appendEntries added files).map fun after => ([], after)
  | step => serve step.calls.run files

/-- Steps one after another, with the entries they cover. -/
inductive InboxPath (allowed : InboxFiles → InboxStep → Prop) (start : InboxFiles) :
    List InboxEntry → InboxFiles → Prop
  | nil : InboxPath allowed start [] start
  | step {covered more : List InboxEntry} {files after : InboxFiles} {step : InboxStep}
      (before : InboxPath allowed start covered files) (permitted : allowed files step)
      (taken : takeStep files step = some (more, after)) :
      InboxPath allowed start (covered ++ more) after

/-- No inbox and no cursor yet. -/
def InboxFiles.fresh : InboxFiles := ⟨[], none, by decide⟩

/-- The cursor the file stands for. -/
def InboxFiles.position (files : InboxFiles) : Cursor := cursorOf files.cursor

/-- A nudge names a count between the wake start of the cursor it was given and the readable
entries. -/
def Proper (files : InboxFiles) : InboxStep → Prop
  | .markNudged expected count => wakeStart expected ≤ count ∧ count ≤ files.entries.length
  | _ => True

/-- A nudge that is not turned down names a count no less than where wakes start now. -/
def Forward (files : InboxFiles) : InboxStep → Prop
  | .markNudged expected count => files.position.differs expected = true
    ∨ wakeStart files.position ≤ count
  | _ => True

instance (files : InboxFiles) : (step : InboxStep) → Decidable (Proper files step)
  | .markNudged _ _ => inferInstanceAs (Decidable (_ ∧ _))
  | .append _ => .isTrue trivial
  | .deliver _ _ => .isTrue trivial
  | .skipBacklog => .isTrue trivial

/-- The cursor stands behind an entry of the inbox and names it, and no two entries share an
identifier. -/
structure InboxFiles.Aligned (files : InboxFiles) : Prop where
  bounded : files.position.deliveredCount ≤ files.entries.length
  named : files.position.lastDeliveredEventId
    = (files.entries.take files.position.deliveredCount).getLast?.map (·.eventId)
  distinct : (files.entries.map (·.eventId)).Nodup

/-! ## Calls on their own -/

/-- A count of no more than the entries is a safe integer. -/
private theorem safe_of_le {files : InboxFiles} {n : Nat} (bound : n ≤ files.entries.length) :
    isSafeInteger n = true := by
  have fits := files.fits
  simp only [isSafeInteger, Bool.and_eq_true, decide_eq_true_eq]
  omega

/-- A nudge is turned down or changes nothing but the nudged count. -/
theorem alone_markNudged (files : InboxFiles) (expected : Cursor) (count : Nat) :
    (markNudged expected count).run.alone execInbox .works files
      = some (.ok (), if files.position.differs expected = true then files
          else { files with cursor := some { files.position with nudgedCount := some count } }) := by
  have unfolded : (markNudged expected count).run.alone execInbox .works files
      = (if files.position.differs expected = true then (pure () : InboxProgram Unit)
          else writeCursorFile { files.position with nudgedCount := some count }).run.alone
            execInbox .works files := by
    simp only [markNudged, ExceptT.run_bind]
    rfl
  rw [unfolded]
  split <;> rfl

/-- The cursor behind a delivered prefix. -/
def Cursor.past (current : Cursor) (delivered : List InboxEntry) (last : InboxEntry)
    (shown : Bool) : Cursor where
  lastDeliveredEventId := some last.eventId
  deliveredCount := current.deliveredCount + delivered.length
  shownEventId := (if shown then some last.eventId else current.shownEventId).filter (· ≠ [])
  nudgedCount := if wakeStart current > current.deliveredCount + delivered.length
    then current.nudgedCount else none

/-- A prefix of what is unread is delivered without a conflict. -/
theorem alone_advanceCursor (files : InboxFiles) (count : Nat) (shown : Bool) :
    let delivered := (files.entries.drop files.position.deliveredCount).take count
    (advanceCursor files.position delivered shown).run.alone execInbox .works files
      = some (match delivered.getLast? with
          | none => (.ok (some files.position), files)
          | some last => (.ok (some (files.position.past delivered last shown)),
              { files with cursor := some (files.position.past delivered last shown) })) := by
  intro delivered
  -- Nothing has moved since the cursor was read, so it does not differ from itself.
  have same : files.position.differs files.position = false := by simp [Cursor.differs]
  -- The entries that the cursor names are those delivered.
  have slice :
    ((files.entries.drop files.position.deliveredCount).take delivered.length).map (·.eventId)
      = delivered.map (·.eventId) := by
    simp only [delivered, List.length_take, ← List.take_eq_take_min]
  -- The first check of the call passes, so what remains is the match on the last entry.
  have unfolded : (advanceCursor files.position delivered shown).run.alone execInbox .works files
      = (if files.position.differs files.position = true
        then (pure none : InboxProgram (Option Cursor)) else
          match delivered.getLast? with
          | none => pure (some files.position)
          | some last => do
            let entries ← readEntries
            if ((entries.drop files.position.deliveredCount).take delivered.length).map (·.eventId)
                ≠ delivered.map (·.eventId) then return none
            writeCursorFile (files.position.past delivered last shown)
            return some (files.position.past delivered last shown)).run.alone
              execInbox .works files := by
    simp only [advanceCursor, ExceptT.run_bind]
    rfl
  rw [unfolded, same]
  -- Without an entry there is nothing to write.
  cases ends : delivered.getLast? with
  | none => rfl
  | some last =>
    -- The entries are read again and are as before, so the cursor is written.
    have read : (do
        let entries ← readEntries
        if ((entries.drop files.position.deliveredCount).take delivered.length).map (·.eventId)
            ≠ delivered.map (·.eventId) then return none
        writeCursorFile (files.position.past delivered last shown)
        return some (files.position.past delivered last shown) :
          InboxProgram (Option Cursor)).run.alone execInbox .works files
        = (if ((files.entries.drop files.position.deliveredCount).take delivered.length).map
          (·.eventId)
            ≠ delivered.map (·.eventId) then (return none : InboxProgram (Option Cursor)) else do
          writeCursorFile (files.position.past delivered last shown)
          return some (files.position.past delivered last shown)).run.alone
            execInbox .works files := by
      simp only [ExceptT.run_bind]
      rfl
    simp only [Bool.false_eq_true, if_false]
    rw [read, if_neg (not_not_intro slice)]
    rfl

/-! ## Steps -/

/-- The files with the cursor behind every prefix that was delivered. -/
def InboxFiles.advanced (files : InboxFiles) (delivered : List InboxEntry) (shown : Bool) :
    InboxFiles :=
  match delivered.getLast? with
  | none => files
  | some last => { files with cursor := some (files.position.past delivered last shown) }

/-- An advance over a prefix of what is unread covers the prefix. -/
private theorem serve_advanceCursor {α : Type} (files : InboxFiles) (count : Nat) (shown : Bool)
    (rest : Except StateError (Option Cursor) → Program inboxCalls α)
    (ends : ∀ next, ∃ result, rest (.ok (some next)) = .done result) :
    let delivered := (files.entries.drop files.position.deliveredCount).take count
    serve (.perform (.advanceCursor files.position delivered shown) rest) files
      = some (delivered, files.advanced delivered shown) := by
  intro delivered
  -- Alone, the call gives the cursor that follows, and the rest of the client is done with it.
  have ran : (inboxBody (.advanceCursor files.position delivered shown)).alone
    execInbox .works files
      = some (match delivered.getLast? with
          | none => (.ok (some files.position), files)
          | some last => (.ok (some (files.position.past delivered last shown)),
              { files with cursor := some (files.position.past delivered last shown) })) :=
    alone_advanceCursor files count shown
  rw [serve, ran, InboxFiles.advanced]
  cases shape : delivered.getLast? with
  | none =>
    obtain ⟨result, done⟩ := ends files.position
    have empty : delivered = [] := List.getLast?_eq_none_iff.mp shape
    simp [done, serve, coveredBy, empty]
  | some last =>
    obtain ⟨result, done⟩ := ends (files.position.past delivered last shown)
    simp [done, serve, coveredBy]

/-- Delivering a prefix covers it and moves the cursor behind it. -/
theorem takeStep_deliver (files : InboxFiles) (count : Nat) (shown : Bool) :
    let delivered := (files.entries.drop files.position.deliveredCount).take count
    takeStep files (.deliver count shown) = some (delivered, files.advanced delivered shown) := by
  intro delivered
  have advance := serve_advanceCursor files count shown
    (fun reply => (ExceptT.mk (Program.done reply) >>= fun _ => (pure () : Deliverer Unit)).run)
      (fun next => ⟨_, rfl⟩)
  have called : takeStep files (.deliver count shown)
      = (serve (.perform (.advanceCursor files.position delivered shown) fun reply =>
          (ExceptT.mk (Program.done reply) >>= fun _ => (pure () : Deliverer Unit)).run)
            files).bind fun (covered, last) =>
            some ([] ++ covered, last) := rfl
  rw [called, advance]
  rfl

/-- A nudge is marked at the cursor that was read, and nowhere else. -/
theorem takeStep_markNudged (files : InboxFiles) (expected : Cursor) (count : Nat) :
    takeStep files (.markNudged expected count)
      = some ([], if files.position.differs expected = true then files
          else { files with cursor := some { files.position with nudgedCount := some count } }) := by
  have called : takeStep files (.markNudged expected count)
      = ((markNudged expected count).run.alone execInbox .works files).bind fun (_, after) => some ([] ++ [], after) := rfl
  rw [called, alone_markNudged]
  rfl

/-- Skipping the backlog delivers everything that is unread. -/
theorem takeStep_skipBacklog (files : InboxFiles) :
    let delivered := files.entries.drop files.position.deliveredCount
    takeStep files .skipBacklog = some (delivered, files.advanced delivered false) := by
  intro delivered
  -- The cursor was read just before, so the first attempt meets no conflict.
  have whole : delivered.take delivered.length = delivered := List.take_length
  have advance := serve_advanceCursor files delivered.length false
    (fun reply => (ExceptT.mk (Program.done reply) >>= fun advanced =>
      if advanced.isSome then (pure () : Deliverer Unit) else Deliverer.skipBacklog 1).run)
        (fun next => ⟨_, rfl⟩)
  have called : takeStep files .skipBacklog
      = (serve (.perform (.advanceCursor files.position delivered false) fun reply =>
          (ExceptT.mk (Program.done reply) >>= fun advanced =>
            if advanced.isSome then (pure () : Deliverer Unit) else Deliverer.skipBacklog 1).run)
              files).bind
              fun (covered, last) => some ([] ++ covered, last) := rfl
  rw [whole] at advance
  rw [called, advance]
  rfl

/-! ## What a step keeps -/

/-- Wakes never start before the delivered position. -/
theorem deliveredCount_le_wakeStart (cursor : Cursor) :
    cursor.deliveredCount ≤ wakeStart cursor := by
  unfold wakeStart
  split
  · split
    · exact Nat.le_max_left _ _
    · exact le_rfl
  · exact le_rfl

/-- With a usable nudged count wakes start at the farther of the two positions. -/
theorem wakeStart_nudged {cursor : Cursor} {count : Nat} (safe : isSafeInteger count = true) :
    wakeStart { cursor with nudgedCount := some count } = max cursor.deliveredCount count := by
  simp [wakeStart, safe]

/-- A delivery keeps a nudge that lies farther ahead. -/
theorem wakeStart_le_past (current : Cursor) (delivered : List InboxEntry) (last : InboxEntry)
    (shown : Bool) :
    wakeStart current ≤ wakeStart (current.past delivered last shown) := by
  by_cases ahead : wakeStart current > current.deliveredCount + delivered.length
  · -- The nudge is what lies ahead, and it is kept.
    have kept : (current.past delivered last shown).nudgedCount = current.nudgedCount := by
      simp [Cursor.past, ahead]
    have count : (current.past delivered last shown).deliveredCount
      = current.deliveredCount + delivered.length := rfl
    unfold wakeStart at ahead ⊢
    rw [kept, count]
    split
    · split
      · omega
      · omega
    · omega
  · -- Otherwise the delivery itself has passed every nudge.
    have count := deliveredCount_le_wakeStart (current.past delivered last shown)
    rw [show (current.past delivered last shown).deliveredCount
      = current.deliveredCount + delivered.length from rfl] at count
    omega

/-- A cursor inside the inbox is the position. -/
theorem position_eq {files : InboxFiles} {cursor : Cursor} (held : files.cursor = some cursor)
    (bound : cursor.deliveredCount ≤ files.entries.length) : files.position = cursor := by
  rw [InboxFiles.position, held, cursorOf, if_pos (safe_of_le bound)]

/-- The last identifier of a prefix is that of the entry before its end. -/
theorem getLast?_take_eq {entries : List InboxEntry} {count : Nat}
    (bound : count ≤ entries.length) :
    ((entries.take count).getLast?.map (·.eventId))
      = if count = 0 then none else (entries[count - 1]?).map (·.eventId) := by
  rw [List.getLast?_take]
  split
  · rfl
  · have inside : count - 1 < entries.length := by omega
    simp [List.getElem?_eq_getElem inside]

section

variable {files after : InboxFiles} {move : InboxStep} {more : List InboxEntry}

/-- Delivering a prefix of what is unread puts the cursor behind it. -/
theorem InboxFiles.Aligned.advanced (aligned : files.Aligned) (count : Nat) (shown : Bool) :
    let delivered := (files.entries.drop files.position.deliveredCount).take count
    (files.advanced delivered shown).entries = files.entries
      ∧ (files.advanced delivered shown).position.deliveredCount = files.position.deliveredCount
        + delivered.length
      ∧ (files.advanced delivered shown).Aligned
      ∧ wakeStart files.position ≤ wakeStart (files.advanced delivered shown).position := by
  intro delivered
  -- What is taken does not reach past the log.
  have short : files.position.deliveredCount + delivered.length ≤ files.entries.length := by
    have bound := aligned.bounded
    simp only [delivered, List.length_take, List.length_drop]
    omega
  rw [InboxFiles.advanced]
  cases ends : delivered.getLast? with
  | none =>
    have empty : delivered = [] := List.getLast?_eq_none_iff.mp ends
    simp [empty, aligned]
  | some last =>
    -- The entries up to the new count are the old ones and those delivered.
    have whole : files.entries.take (files.position.deliveredCount + delivered.length)
        = files.entries.take files.position.deliveredCount ++ delivered := by
      rw [List.take_add]
      congr 1
      simp only [delivered, List.length_take, ← List.take_eq_take_min]
    have position :
      InboxFiles.position { files with cursor := some (files.position.past delivered last shown) }
        = files.position.past delivered last shown := position_eq rfl short
    -- So the cursor names the last entry that it counts.
    have named : (files.position.past delivered last shown).lastDeliveredEventId
        = (files.entries.take (files.position.deliveredCount + delivered.length)).getLast?.map
          (·.eventId) := by
      rw [whole, List.getLast?_append, ends]
      rfl
    refine ⟨rfl, ?_, ⟨?_, ?_, aligned.distinct⟩, ?_⟩
    · rw [position]; rfl
    · rw [position]; exact short
    · rw [position]; exact named
    · rw [position]; exact wakeStart_le_past _ _ _ _

/-- What one step keeps and how it moves the two positions. -/
theorem InboxFiles.Aligned.step (aligned : files.Aligned) (permitted : Proper files move)
    (taken : takeStep files move = some (more, after)) :
    after.Aligned
      ∧ after.entries.take after.position.deliveredCount = files.entries.take files.position.deliveredCount ++ more
      ∧ (wakeStart files.position ≤ wakeStart after.position ↔ Forward files move) := by
  -- A delivery goes through the next entries, and through no others.
  have delivers : ∀ (count : Nat) (shown : Bool),
      let delivered := (files.entries.drop files.position.deliveredCount).take count
      (files.advanced delivered shown).entries.take (files.advanced delivered shown).position.deliveredCount
        = files.entries.take files.position.deliveredCount ++ delivered := by
    intro count shown delivered
    obtain ⟨entries, moved, -, -⟩ := aligned.advanced count shown
    rw [entries, moved, List.take_add]
    congr 1
    simp only [delivered, List.length_take, ← List.take_eq_take_min]
  cases move with
  | append added =>
    -- The writer adds behind everything there is and leaves the cursor alone.
    simp only [takeStep, appendEntries, Option.map_eq_some_iff, Option.dite_none_right_eq_some,
      Option.some.injEq, Prod.mk.injEq] at taken
    obtain ⟨grown, ⟨fits, rfl⟩, rfl, rfl⟩ := taken
    obtain ⟨distinct, apart⟩ := freshEntries_distinct (files.entries.map (·.eventId)) added
    have same :
      (files.entries ++ freshEntries (files.entries.map (·.eventId)) added).take
      files.position.deliveredCount
        = files.entries.take files.position.deliveredCount :=
          List.take_append_of_le_length aligned.bounded
    refine ⟨⟨?_, ?_, ?_⟩, ?_, ⟨fun _ => trivial, fun _ => le_rfl⟩⟩
    · exact le_trans aligned.bounded (by simp)
    · show files.position.lastDeliveredEventId = _
      rw [aligned.named, ← same]
      rfl
    · simp only [List.map_append, List.nodup_append]
      refine ⟨aligned.distinct, distinct, ?_⟩
      rintro id old other inside rfl
      obtain ⟨entry, new, same⟩ := List.mem_map.mp inside
      exact apart entry new (same ▸ old)
    · exact same.trans (by simp)
  -- A delivery moves the cursor forward over what it delivers.
  | deliver count shown =>
    rw [takeStep_deliver, Option.some.injEq, Prod.mk.injEq] at taken
    obtain ⟨rfl, rfl⟩ := taken
    obtain ⟨-, -, kept, wakes⟩ := aligned.advanced count shown
    exact ⟨kept, delivers count shown, ⟨fun _ => trivial, fun _ => wakes⟩⟩
  -- A nudge leaves the position where it is, and is not made at another one.
  | markNudged expected count =>
    rw [takeStep_markNudged, Option.some.injEq, Prod.mk.injEq] at taken
    obtain ⟨rfl, rfl⟩ := taken
    by_cases other : files.position.differs expected = true
    · simp [other, aligned, Forward]
    · rw [if_neg other]
      have small : isSafeInteger count = true := safe_of_le permitted.2
      have position : InboxFiles.position { files with cursor := some { files.position with nudgedCount := some count } }
          = { files.position with nudgedCount := some (count : Int) } := position_eq rfl aligned.bounded
      have start : wakeStart { files.position with nudgedCount := some (count : Int) }
          = max files.position.deliveredCount count := wakeStart_nudged small
      refine ⟨⟨?_, ?_, aligned.distinct⟩, ?_, ?_⟩
      · rw [position]; exact aligned.bounded
      · rw [position]; exact aligned.named
      · rw [position]; simp
      · -- The nudge lies past the delivered position and only lowers the start below an older nudge.
        have counts : files.position.deliveredCount = expected.deliveredCount := by
          simp only [Cursor.differs, Bool.or_eq_true, not_or, bne_iff_ne, ne_eq, not_not] at other
          exact other.1
        have ahead := le_trans (deliveredCount_le_wakeStart expected) permitted.1
        rw [position, start]
        simp only [Forward, other, Bool.false_eq_true, false_or]
        omega
  -- Skipping the backlog delivers all that is left, without showing it.
  | skipBacklog =>
    rw [takeStep_skipBacklog, Option.some.injEq, Prod.mk.injEq] at taken
    obtain ⟨rfl, rfl⟩ := taken
    have whole : (files.entries.drop files.position.deliveredCount).take
        (files.entries.drop files.position.deliveredCount).length
          = files.entries.drop files.position.deliveredCount := List.take_length
    obtain ⟨-, -, kept, wakes⟩ :=
      aligned.advanced (files.entries.drop files.position.deliveredCount).length false
    have covered := delivers (files.entries.drop files.position.deliveredCount).length false
    rw [whole] at kept wakes covered
    exact ⟨kept, covered, ⟨fun _ => trivial, fun _ => wakes⟩⟩

end

/-! ## Whole histories -/

/-- Every history keeps the cursor aligned, and what its advances covered is what lies behind the
cursor. -/
theorem InboxPath.aligned {start files : InboxFiles} {covered : List InboxEntry}
    (initial : start.Aligned) (path : InboxPath Proper start covered files) :
    files.Aligned ∧ files.entries.take files.position.deliveredCount
      = start.entries.take start.position.deliveredCount ++ covered := by
  induction path with
  | nil => exact ⟨initial, by simp⟩
  | step before permitted taken ih =>
    obtain ⟨aligned, so_far⟩ := ih
    obtain ⟨kept, further, -⟩ := aligned.step permitted taken
    exact ⟨kept, by rw [further, so_far, List.append_assoc]⟩

/-- Nudges that go forward never bring an entry back among the wakes. -/
theorem InboxPath.wakes {start files : InboxFiles} {covered : List InboxEntry}
    (initial : start.Aligned)
    (path : InboxPath (fun files step =>
      Proper files step ∧ Forward files step) start covered files) :
    files.Aligned ∧ wakeStart start.position ≤ wakeStart files.position := by
  induction path with
  | nil => exact ⟨initial, le_rfl⟩
  | step before permitted taken ih =>
    obtain ⟨aligned, ahead⟩ := ih
    obtain ⟨kept, -, forward⟩ := aligned.step permitted.1 taken
    exact ⟨kept, ahead.trans (forward.mpr permitted.2)⟩

/-- Files that nothing has written to are aligned. -/
theorem aligned_fresh : InboxFiles.fresh.Aligned := ⟨le_rfl, rfl, List.nodup_nil⟩

/-- In every history that starts from an empty inbox the cursor counts and names a prefix of the
readable entries, the successful advances covered exactly that prefix, and a nudge moves neither the
delivered nor the shown position. A step lowers where wakes start exactly when it is a nudge whose
count lies below it, so wakes start ever later in a history without such nudges. -/
theorem cursor_history {covered : List InboxEntry} {files : InboxFiles}
    (path : InboxPath Proper .fresh covered files) :
    files.position.deliveredCount ≤ files.entries.length
      ∧ files.position.lastDeliveredEventId = (if files.position.deliveredCount = 0 then none
          else (files.entries[files.position.deliveredCount - 1]?).map (·.eventId))
      ∧ covered = files.entries.take files.position.deliveredCount
      ∧ (files.entries.map (·.eventId)).Nodup
      ∧ (∀ expected count more after,
        takeStep files (.markNudged expected count) = some (more, after) →
          Proper files (.markNudged expected count) →
          after.position.deliveredCount = files.position.deliveredCount
            ∧ after.position.lastDeliveredEventId = files.position.lastDeliveredEventId
            ∧ after.position.shownEventId = files.position.shownEventId)
      ∧ (∀ step more after, Proper files step → takeStep files step = some (more, after) →
          (wakeStart files.position ≤ wakeStart after.position ↔ Forward files step))
      ∧ ∀ more later,
        InboxPath (fun files step => Proper files step ∧ Forward files step) files more later →
          wakeStart files.position ≤ wakeStart later.position := by
  -- Along the path the cursor is aligned with the log, and what was handed out lies before it.
  obtain ⟨aligned, behind⟩ := path.aligned aligned_fresh
  refine ⟨aligned.bounded,
    aligned.named.trans (getLast?_take_eq aligned.bounded), by simpa [InboxFiles.fresh]
    using behind.symm,
    aligned.distinct, ?_, fun step more after permitted taken => (aligned.step permitted taken).2.2,
    fun more later further => (further.wakes aligned).2⟩
  intro expected count more after taken _
  -- A nudge writes the nudged count alone, when it writes at all.
  rw [takeStep_markNudged, Option.some.injEq, Prod.mk.injEq] at taken
  obtain ⟨-, rfl⟩ := taken
  split
  · exact ⟨rfl, rfl, rfl⟩
  · have position : InboxFiles.position { files with cursor := some { files.position with nudgedCount := some count } }
        = { files.position with nudgedCount := some (count : Int) } := position_eq rfl aligned.bounded
    rw [position]
    exact ⟨rfl, rfl, rfl⟩

/-- An entry like those of a channel, told apart by its identifier. -/
private def entryNamed (id : String) : InboxEntry where
  eventId := lit id
  roomId := lit "!r"
  ts := lit "2026-01-01T00:00:00.000Z"
  sender := lit "@maya"
  senderLabel := lit "Maya"
  senderKind := .human
  kind := .message
  body := lit "hi"
  mention := false

/-- Three entries under a cursor. -/
private def threeEntries (cursor : Option Cursor) : InboxFiles :=
  ⟨[entryNamed "$1", entryNamed "$2", entryNamed "$3"], cursor, by decide⟩

/-- Three appended entries are a path of proper steps. -/
private theorem path_threeEntries : InboxPath Proper .fresh [] (threeEntries none) := by
  have taken :
    takeStep .fresh (.append (threeEntries none).entries) = some ([], threeEntries none) := rfl
  exact .step .nil (by trivial) taken

/-- The inbox after three entries, of which one was delivered and three were nudged. -/
theorem cursor_history_nudged :
    (threeEntries (some ⟨some (lit "$1"), 1, none, some 3⟩)).position.deliveredCount ≤ 3
      ∧ [entryNamed "$1"] = (threeEntries none).entries.take 1 := by
  have delivered : takeStep (threeEntries none) (.deliver 1 false)
      = some ([entryNamed "$1"], threeEntries (some ⟨some (lit "$1"), 1, none, none⟩)) := rfl
  have nudged : takeStep (threeEntries (some ⟨some (lit "$1"), 1, none, none⟩))
      (.markNudged ⟨some (lit "$1"), 1, none, none⟩ 3)
      = some ([], threeEntries (some ⟨some (lit "$1"), 1, none, some 3⟩)) := rfl
  have path : InboxPath Proper .fresh [entryNamed "$1"]
    (threeEntries (some ⟨some (lit "$1"), 1, none, some 3⟩)) :=
    .step (.step path_threeEntries (by trivial) delivered) (by decide) nudged
  exact ⟨(cursor_history path).1, (cursor_history path).2.2.1⟩

/-- Two nudgers that read the cursor before either of them wrote: the later and shorter nudge takes
the other back. -/
theorem nudge_taken_back :
    ¬ ∀ {covered more : List InboxEntry} {files later : InboxFiles},
      InboxPath Proper .fresh covered files →
      InboxPath Proper files more later → wakeStart files.position ≤ wakeStart later.position := by
  intro always
  have first : takeStep (threeEntries none) (.markNudged ⟨none, 0, none, none⟩ 3)
      = some ([], threeEntries (some ⟨none, 0, none, some 3⟩)) := rfl
  have second : takeStep (threeEntries (some ⟨none, 0, none, some 3⟩))
    (.markNudged ⟨none, 0, none, none⟩ 1)
      = some ([], threeEntries (some ⟨none, 0, none, some 1⟩)) := rfl
  have path : InboxPath Proper .fresh [] (threeEntries (some ⟨none, 0, none, some 3⟩)) :=
    .step path_threeEntries (by decide) first
  have later := always path (.step .nil (by decide) second)
  exact absurd later (by decide)

end Khala
