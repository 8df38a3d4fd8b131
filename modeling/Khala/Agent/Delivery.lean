import Khala.Agent.Inbox
import Khala.Concurrent.Contract

/-! When concurrent deliverers hand out every entry at most once. -/

namespace Khala

open Js Concurrent

/-- How many entries the cursor file counts as delivered. -/
def InboxFiles.deliveredCount (files : InboxFiles) : Nat :=
  (cursorOf files.cursor).deliveredCount

/-- The cursor a call compares the file with. -/
def InboxCall.expected : InboxCall → Option Cursor
  | .markNudged expected _ => some expected
  | .advanceCursor expected _ _ => some expected
  | _ => none

/-- An answered call delivered the entry at this place of the inbox. -/
def Covers (answer : Answer inbox) (place : Nat) : Prop :=
  match answer with
  | ⟨_, .advanceCursor expected delivered _, .ok (some _)⟩ =>
    expected.deliveredCount ≤ place ∧ place < expected.deliveredCount + delivered.length
  | _ => False

/-- No two answered calls delivered the same entry. -/
def AtMostOnce (log : List (Answer inbox)) : Prop :=
  log.Pairwise fun first second => ∀ place, ¬ (Covers first place ∧ Covers second place)

/-- Whether a move that writes the cursor finds the count its call has checked still stored. -/
def countUnmoved (config : Config inbox) : Move inbox → Bool
  | .effect thread _ =>
    match config.threads thread with
    | .busy _ call (.perform (.writeCursorFile _) _) _ =>
      call.expected.all fun expected => config.store.deliveredCount == expected.deliveredCount
    | _ => true
  | _ => true

/-! ## One call -/

/-- Whether a store has moved on by exactly what a call delivers. -/
private def Advances (call : InboxCall) (before after : InboxFiles) : Prop :=
  match call with
  | .advanceCursor expected delivered _ =>
    delivered ≠ [] ∧ before.deliveredCount = expected.deliveredCount
    ∧ after.deliveredCount = expected.deliveredCount + delivered.length
  | _ => False

/-- Others may do anything; this call moves the count only by what it delivers. -/
private def deliveryDuty (call : InboxCall) : Duty inboxEffects InboxFiles where
  rely := fun _ _ _ => True
  guarantee := fun before after => after.deliveredCount = before.deliveredCount
    ∨ Advances call before after
  permits := fun op files => ∀ cursor, op = .writeCursorFile cursor →
    ∀ expected ∈ call.expected, files.deliveredCount = expected.deliveredCount

private def delivery : Contract inbox where
  invariant := fun log _ files => AtMostOnce log
    ∧ ∀ answer ∈ log, ∀ place, Covers answer place → place < files.deliveredCount
  duty := fun _ call => deliveryDuty call
  answer := fun answer before after => ∀ place, Covers answer place →
    Advances answer.call before after

/-- Reading a file changes nothing. -/
private theorem exec_readCursorFile {choice : FileOutcome} {files after : InboxFiles}
    {reply : Except StateError (Option Cursor)}
    (ran : execInbox .readCursorFile choice files = some (reply, after)) :
    after = files ∧ (reply = .ok files.cursor ∨ reply = .error .storageFailed) := by
  cases choice <;> cases ran <;> simp

/-- Reading the inbox changes nothing, and gives all entries unless it fails. -/
private theorem exec_readInboxFile {choice : FileOutcome} {files after : InboxFiles}
    {reply : Except StateError (List InboxEntry)}
    (ran : execInbox .readInboxFile choice files = some (reply, after)) :
    after = files ∧ (reply = .ok files.entries ∨ reply = .error .storageFailed) := by
  cases choice <;> cases ran <;> simp

/-- A write leaves the entries alone and may have taken effect even when it fails. -/
private theorem exec_writeCursorFile {cursor : Cursor} {choice : FileOutcome}
    {files after : InboxFiles} {reply : Except StateError Unit}
    (ran : execInbox (.writeCursorFile cursor) choice files = some (reply, after)) :
    (after.cursor = some cursor ∧ (reply = .ok () ∨ reply = .error .storageFailed)) ∨
    (after = files ∧ reply = .error .storageFailed) := by
  cases choice <;> cases ran <;> simp

section

variable {α : Type} {call : InboxCall} {post : α → InboxFiles → InboxFiles → Prop}
    {before now : InboxFiles}

/-- A program that reads the cursor goes on with a cursor some file held, or with an error. -/
private theorem safe_readCursor {rest : Except StateError Cursor → Program inboxEffects α}
    (fails : ∀ files,
      (rest (.error .storageFailed)).Safe execInbox (deliveryDuty call) post files files)
    (reads : ∀ files,
      (rest (.ok (cursorOf files.cursor))).Safe execInbox (deliveryDuty call) post files files) :
    (readCursor.run >>= rest).Safe execInbox (deliveryDuty call) post before now := by
  intro mid choice reply after _ _ ran
  obtain ⟨rfl, rfl | rfl⟩ := exec_readCursorFile ran
  · exact ⟨Or.inl rfl, reads after⟩
  · exact ⟨Or.inl rfl, fails after⟩

/-- A program that begins by reading the entries is safe when it is after each answer. -/
private theorem safe_readEntries
    {rest : Except StateError (List InboxEntry) → Program inboxEffects α}
    (fails : ∀ files,
      (rest (.error .storageFailed)).Safe execInbox (deliveryDuty call) post files files)
    (reads : ∀ files : InboxFiles,
      (rest (.ok files.entries)).Safe execInbox (deliveryDuty call) post files files) :
    (readEntries.run >>= rest).Safe execInbox (deliveryDuty call) post before now := by
  intro mid choice reply after _ _ ran
  obtain ⟨rfl, rfl | rfl⟩ := exec_readInboxFile ran
  · exact ⟨Or.inl rfl, reads after⟩
  · exact ⟨Or.inl rfl, fails after⟩

end

/-- What is read of a cursor file counts with a safe integer. -/
private theorem cursorOf_safe (file : Option Cursor) :
    isSafeInteger (cursorOf file).deliveredCount = true := by
  unfold cursorOf
  split
  · split
    · assumption
    · rfl
  · rfl

/-- A cursor with a safe count is read as it is. -/
theorem cursorOf_some {cursor : Cursor} (safe : isSafeInteger cursor.deliveredCount = true) :
    cursorOf (some cursor) = cursor := by
  simp [cursorOf, safe]

/-- A cursor that is not reported as different has the count the caller expects. -/
theorem Cursor.count_of_not_differs {current expected : Cursor}
    (same : current.differs expected = false) :
    current.deliveredCount = expected.deliveredCount := by
  simp only [Cursor.differs, Bool.or_eq_false_iff, bne_eq_false_iff_eq] at same
  exact same.1

/-- Writing a readable cursor stores its count, if the write takes effect. -/
private theorem deliveredCount_of_write {cursor : Cursor} {choice : FileOutcome}
    {files after : InboxFiles} {reply : Except StateError Unit}
    (safe : isSafeInteger cursor.deliveredCount = true)
    (ran : execInbox (.writeCursorFile cursor) choice files = some (reply, after)) :
    after.deliveredCount = cursor.deliveredCount
      ∨ (after = files ∧ reply = .error .storageFailed) := by
  rcases exec_writeCursorFile ran with ⟨written, -⟩ | same
  · left
    rw [InboxFiles.deliveredCount, written, cursorOf_some safe]
  · exact Or.inr same

/-- Marking a nudge does what the contract allows. -/
private theorem safe_markNudged (tag : Nat) (expected : Cursor) (count : Nat) (files : InboxFiles) :
    delivery.CallSafe tag (.markNudged expected count) (markNudged expected count).run files := by
  -- A nudge hands nothing out, so each of its answers is good.
  have quiet : ∀ reply before after,
    delivery.answer ⟨tag, .markNudged expected count, reply⟩ before after :=
    fun reply before after place covers => covers.elim
  simp only [markNudged, ExceptT.run_bind]
  refine safe_readCursor (fun _ => quiet _ _ _) fun seen => ?_
  simp only
  split
  · exact quiet _ _ _
  -- The cursor is the one expected, whose count is that of the files as the write is permitted.
  · rename_i same
    have kept := Cursor.count_of_not_differs (Bool.eq_false_iff.mpr same)
    intro mid choice reply after _ permitted ran
    have current := permitted _ rfl expected rfl
    refine ⟨Or.inl ?_, quiet _ _ _⟩
    rcases deliveredCount_of_write (by exact cursorOf_safe seen.cursor) ran with written | ⟨rfl, -⟩
    · exact written.trans (kept.trans current.symm)
    · rfl

/-- A slice that has as many entries as are delivered lies inside the inbox. -/
private theorem slice_inside {files : InboxFiles} {start : Nat} {delivered : List InboxEntry}
    (some_ : delivered ≠ [])
    (same : ((files.entries.drop start).take delivered.length).map (·.eventId)
      = delivered.map (·.eventId)) :
    isSafeInteger ((start + delivered.length : Nat) : Int) = true := by
  have sizes := congrArg List.length same
  have positive := List.length_pos_iff.mpr some_
  have fits := files.fits
  simp only [List.length_map, List.length_take, List.length_drop] at sizes
  simp only [isSafeInteger, Bool.and_eq_true, decide_eq_true_eq]
  omega

/-- Advancing the cursor does what the contract allows. -/
private theorem safe_advanceCursor (tag : Nat) (expected : Cursor) (delivered : List InboxEntry)
    (shown : Bool) (files : InboxFiles) :
    delivery.CallSafe tag (.advanceCursor expected delivered shown)
      (advanceCursor expected delivered shown).run files := by
  -- Only the answer after a write covers anything.
  have error : ∀ fault before after,
      delivery.answer ⟨tag, .advanceCursor expected delivered shown, .error fault⟩ before after :=
    fun fault before after place covers => covers.elim
  have conflict : ∀ before after,
      delivery.answer ⟨tag, .advanceCursor expected delivered shown, .ok none⟩ before after :=
    fun before after place covers => covers.elim
  simp only [advanceCursor, ExceptT.run_bind]
  refine safe_readCursor (fun _ => error _ _ _) fun seen => ?_
  simp only
  split
  · exact conflict _ _
  · rename_i same
    have kept := Cursor.count_of_not_differs (Bool.eq_false_iff.mpr same)
    cases last : delivered.getLast? with
    | none =>
      rw [List.getLast?_eq_none_iff] at last
      subst last
      intro place covers
      exact absurd covers.2 (by simpa using covers.1)
    | some entry =>
      have some_ : delivered ≠ [] := by rintro rfl; cases last
      simp only [ExceptT.run_bind]
      refine safe_readEntries (fun _ => error _ _ _) fun snapshot => ?_
      simp only
      split
      · exact conflict _ _
      · rename_i equal
        have inside := slice_inside some_ (not_not.mp equal)
        intro mid choice reply after _ permitted ran
        have current := permitted _ rfl expected rfl
        rcases deliveredCount_of_write (by exact inside) ran with written | ⟨rfl, rfl⟩
        · have moves : Advances (.advanceCursor expected delivered shown) mid after :=
            ⟨some_, current, written⟩
          refine ⟨Or.inr moves, ?_⟩
          cases reply with
          | error fault => exact error _ _ _
          | ok _ => exact fun _ _ => moves
        · exact ⟨Or.inl rfl, error _ _ _⟩

/-- Every call does what the contract allows. -/
private theorem safe_inboxBody (tag : Nat) (call : InboxCall) (files : InboxFiles) :
    delivery.CallSafe tag call (inboxBody call) files := by
  -- Only an advance hands anything out; the other calls answer without a delivery.
  cases call with
  | readCursor =>
    rw [inboxBody, ← bind_pure readCursor.run]
    exact safe_readCursor (fun _ place covers => covers.elim) fun _ place covers => covers.elim
  | readEntries =>
    rw [inboxBody, ← bind_pure readEntries.run]
    exact safe_readEntries (fun _ place covers => covers.elim) fun _ place covers => covers.elim
  | unread =>
    simp only [inboxBody, unread, ExceptT.run_bind]
    refine safe_readCursor (fun _ place covers => covers.elim) fun _ => ?_
    exact safe_readEntries (fun _ place covers => covers.elim) fun _ place covers => covers.elim
  -- The two calls that write the cursor have lemmas of their own.
  | markNudged expected count => exact safe_markNudged tag expected count files
  | advanceCursor expected delivered shown =>
    exact safe_advanceCursor tag expected delivered shown files

/-! ## All interleavings -/

/-- A delivery never takes the cursor back. -/
private theorem Advances.forward {call : InboxCall} {before after : InboxFiles}
    (delivers : Advances call before after) : before.deliveredCount ≤ after.deliveredCount := by
  cases call with
  | advanceCursor expected delivered shown => have := delivers.2; omega
  | _ => exact delivers.elim

/-- What an answer covers lies between the counts before and after its write. -/
private theorem covers_bounds {answer : Answer inbox} {place : Nat} {before after : InboxFiles}
    (covers : Covers answer place) (delivers : Advances answer.call before after) :
    before.deliveredCount ≤ place ∧ place < after.deliveredCount := by
  obtain ⟨tag, call, reply⟩ := answer
  cases call with
  | advanceCursor expected delivered shown =>
    match reply, covers with
    | .ok (some _), inside =>
      have := delivers.2
      exact ⟨by have := inside.1; omega, by have := inside.2; omega⟩
  | _ => exact delivers.elim

/-- An append leaves the cursor where it is. -/
private theorem deliveredCount_append {added : List InboxEntry} {files after : InboxFiles}
    (appended : appendEntries added files = some after) :
    after.deliveredCount = files.deliveredCount := by
  simp only [appendEntries] at appended
  split at appended
  · cases appended; rfl
  · cases appended

/-- The contract of deliveries holds of every call and of what others do. -/
private theorem delivery_holds : delivery.Holds fun config move => countUnmoved config move where
  refl _ _ _ _ := trivial
  trans _ _ _ := fun _ _ => trivial
  -- A call begins with the files unchanged.
  begins call kept := ⟨safe_inboxBody _ call _, kept⟩
  rests _ _ _ := Or.inl rfl
  -- An operation under way moves the count forward or not at all.
  works tag call kept _ moved := by
    refine ⟨kept.1, fun answer member place covers => ?_⟩
    have below := kept.2 answer member place covers
    rcases moved with same | delivers
    · omega
    · have := delivers.forward; omega
  answers answer kept _ _ moved covered := by
    refine ⟨List.pairwise_append.mpr ⟨kept.1, List.pairwise_singleton _ _, ?_⟩, ?_⟩
    -- The new answer begins where the count stood, which is past every earlier answer.
    · intro old member new isNew place both
      rw [List.mem_singleton] at isNew
      subst isNew
      have below := kept.2 old member place both.1
      have above := (covers_bounds both.2 (covered place both.2)).1
      omega
    · intro other member place covers
      rcases List.mem_append.mp member with old | isNew
      · have below := kept.2 other old place covers
        rcases moved with same | delivers
        · omega
        · have := delivers.forward; omega
      · rw [List.mem_singleton] at isNew
        subst isNew
        exact (covers_bounds covers (covered place covers)).2
  -- Messages that arrive from outside leave the count where it is.
  outside added kept happened := by
    refine ⟨⟨kept.1, fun answer member place covers => ?_⟩, fun _ _ _ => trivial⟩
    rw [deliveredCount_append happened]
    exact kept.2 answer member place covers
  -- A permitted move writes only over the count that its call has read.
  permitted sound numbered allowed busy := by
    rintro cursor rfl expected wanted
    simp only [countUnmoved, busy, Option.all_eq_true, beq_iff_eq] at allowed
    exact allowed expected wanted
  interferes _ _ _ _ _ _ _ _ := trivial

/-- As long as every cursor write finds the count that its call has checked, no entry is delivered
twice and no step lowers the stored count, whoever the deliverers are and however they interleave.
-/
theorem delivered_at_most_once (start : Config inbox) (idle : start.Idle)
    {log : List (Answer inbox)} {config : Config inbox}
    (run : Run (fun config move => countUnmoved config move) start log config) :
    AtMostOnce log ∧ ∀ move after answers, countUnmoved config move →
    step config move = some (after, answers) →
      config.store.deliveredCount ≤ after.store.deliveredCount := by
  have sound := delivery_holds.run idle ⟨List.Pairwise.nil, by simp⟩ run
  refine ⟨sound.invariant.1, fun move after answers unmoved moved => ?_⟩
  -- Only an operation of a call and an append touch the files.
  rcases step_cases moved with ⟨thread, call, client, rfl, idle, rfl, rfl⟩
    | ⟨thread, choice, tag, call, op, next, client, reply, store, rfl, busy, ran, rfl, rfl⟩
    | ⟨event, store, rfl, happened, rfl, rfl⟩
  · exact Nat.le_refl _
  · rcases sound.guaranteed delivery_holds (run.numbered idle) unmoved busy ran with same | delivers
    · exact Nat.le_of_eq same.symm
    · exact delivers.forward
  · exact Nat.le_of_eq (deliveredCount_append happened).symm

/-! ## Two hooks -/

/-- An inbox with one undelivered message, and two hooks that are about to deliver it. -/
private def twoHooks : Config inbox where
  store := ⟨[⟨lit "$1", lit "!r:khala.local", lit "2026-10-02T10:04:00.000Z",
    lit "@maya:khala.local", lit "Maya",
    .human, .message, lit "hello", false⟩], none, by decide⟩
  threads := fun thread =>
    if thread < 2 then .idle ((Deliverer.deliver (fun _ entries => entries.length) true 2).run >>=
      fun _ => pure ())
    else .idle (pure ())
  next := 0

/-- No call of the two hooks has begun. -/
private theorem twoHooks_idle : twoHooks.Idle := by
  intro thread
  simp only [twoHooks]
  split <;> exact ⟨_, rfl⟩

/-- The moves of one hook that reads the inbox, moves the cursor and is not disturbed. -/
private def alone (thread : Nat) : List (Move inbox) :=
  .start thread :: .effect thread .works :: .effect thread .works
    :: .start thread :: List.replicate 3 (.effect thread .works)

/-- The moves of two hooks that both read the cursor before either writes it. -/
private def overlapped : List (Move inbox) :=
  [.start 0, .start 1, .effect 0 .works, .effect 0 .works, .effect 1 .works, .effect 1 .works,
    .start 0, .start 1, .effect 0 .works, .effect 1 .works, .effect 0 .works, .effect 1 .works,
    .effect 0 .works, .effect 1 .works]

/-- Two hooks one after the other deliver the message once. -/
theorem delivered_at_most_once_in_turn :
    ∃ log config, AtMostOnce log ∧ (∀ move after answers, countUnmoved config move →
        step config move = some (after, answers) →
          config.store.deliveredCount ≤ after.store.deliveredCount)
      ∧ config.store.deliveredCount = 1 := by
  have ran : (execute countUnmoved twoHooks
    (alone 0 ++ [.start 1, .effect 1 .works, .effect 1 .works])).isSome := rfl
  obtain ⟨⟨log, config⟩, done⟩ := Option.isSome_iff_exists.mp ran
  have safe := delivered_at_most_once twoHooks twoHooks_idle (Run.of_execute done)
  refine ⟨log, config, safe.1, safe.2, ?_⟩
  have stored :
    (execute countUnmoved twoHooks (alone 0 ++ [.start 1, .effect 1 .works, .effect 1 .works])).map
      (·.2.store.deliveredCount) = some 1 := rfl
  simpa [done] using stored

/-- Both hooks read the cursor before either writes it, and both deliver the message. -/
theorem delivered_twice :
    ¬ ∀ (start : Config inbox), start.Idle → ∀ log config, Run (fun _ _ => True) start log config →
      AtMostOnce log ∧ ∀ move after answers, step config move = some (after, answers) →
        config.store.deliveredCount ≤ after.store.deliveredCount := by
  intro safe
  have ran : ∃ first second third fourth final, execute (fun _ _ => true) twoHooks overlapped
      = some ([first, second, third, fourth], final) ∧ Covers third 0 ∧ Covers fourth 0 :=
    ⟨_, _, _, _, _, rfl, ⟨by decide, by decide⟩, ⟨by decide, by decide⟩⟩
  obtain ⟨first, second, third, fourth, final, done, one, two⟩ := ran
  have once := (safe twoHooks twoHooks_idle _ _ ((Run.of_execute done).mono fun _ _ _ => trivial)).1
  simp only [AtMostOnce, List.pairwise_cons, List.mem_singleton] at once
  exact once.2.2.1 fourth rfl 0 ⟨one, two⟩

end Khala
