import Khala.Control.ChannelRules

/-! Removals are generations: they never go back, and an invite that is older than one is worth
nothing. -/

namespace Khala.Channels

open Js Concurrent

variable {runtime : AdmissionRuntime}

/-- The removals that a room has at first are a record that every reader accepts. -/
def RemovalsFirst (key : ChannelKey) (data : ChannelData) : Prop :=
  ∀ roomId, key = .removals roomId → ∃ record, data = .removals record ∧ validRemovals record = true

/-- The room has had the record at the version. -/
structure RecordAt (store : ChannelStore) (roomId : RoomId) (version : SharedVersion channelSetting)
    (record : RoomRemovals) :
    Prop where
  member : version ∈ store.versions
  key : version.key = .removals roomId
  data : version.data = .removals record

/-- A removal of the human that has been recorded. -/
def Recorded (store : ChannelStore) (roomId : RoomId) (ownerId : OwnerId) (entry : OwnerRemoval) :
    Prop :=
  ∃ version record, RecordAt store roomId version record ∧ record.owners.get ownerId = some entry

/-- The removal of the human with the generation has become complete. -/
def Completed (store : ChannelStore) (roomId : RoomId) (ownerId : OwnerId) (generation : Nat) :
    Prop :=
  ∃ entry, Recorded store roomId ownerId entry ∧ entry.generation = generation
    ∧ entry.complete = true

/-- What all records of a room have in common. -/
structure Ordered (store : ChannelStore) (roomId : RoomId) : Prop where
  record : ∀ version ∈ store.versions, version.key = .removals roomId → ∃ record,
    version.data = .removals record
  bounded : ∀ version record, RecordAt store roomId version record → Bounded record
  follows : ∀ earlier later old new, RecordAt store roomId earlier old →
    RecordAt store roomId later new →
    earlier.etag ≤ later.etag → Follows old new

section

variable {regime : Regime} {store : ChannelStore} {roomId : RoomId}

/-- A write of removals over those that it has read. -/
theorem removals_rule {expected : Option Nat}
    {author : Author ChannelOperation (Caller channelSetting)} {data : ChannelData}
    (rule : (channelRules runtime regime).rule store ⟨.removals roomId, expected, author, data⟩) :
    ∃ previous after, Before store (.removals roomId) expected previous ∧ data = .removals after
      ∧ Bounded after
      ∧ ∀ record, previous = some record → Follows record after ∧ Finished record after := by
  obtain ⟨tag, call, -, write, -⟩ := rule
  -- Only a removal and its completion write this key.
  cases operation : author.operation with
  | remove random =>
    rw [operation] at write
    obtain ⟨room, creatorOwnerId, ownerId, agents, label, previous, -, -, before, creator, rfl⟩ :=
      write
    have bounded : ∀ record, previous = some record → Bounded record := by
      rintro record rfl
      exact .of_valid before.1
    refine ⟨previous, _, before, rfl, withRemoval_bounded bounded _ _ _ _, ?_⟩
    rintro record rfl
    rw [← creator record rfl]
    exact withRemoval_follows (bounded record rfl) _ _ _
  | complete random =>
    rw [operation] at write
    obtain ⟨room, ownerId, record, entry, -, -, before, present, rfl⟩ := write
    refine ⟨some record, _, before, rfl, withComplete_bounded (.of_valid before.1) present, ?_⟩
    rintro _ ⟨⟩
    exact withComplete_follows present
  | agentRemoved random =>
    rw [operation] at write
    obtain ⟨room, userId, removed, -, key, -⟩ := write
    cases key
  | share operationId =>
    rw [operation] at write
    obtain ⟨ownerId, room, policy, value, -, key, -⟩ := write
    cases key
  | revoke operationId =>
    rw [operation] at write
    obtain ⟨ownerId, inviteRef, revision, old, invite, -, key, -⟩ := write
    cases key
  | pointer ownerId room generation =>
    rw [operation] at write
    obtain ⟨-, key, -⟩ := write
    cases key

/-- Every record of removals is bounded by its generation. -/
theorem record_bounded (first : ∀ key data, regime.first key data → RemovalsFirst key data)
    (kept : Kept (channelRules runtime regime) store) {version : SharedVersion channelSetting}
    (member : version ∈ store.versions) (key : version.key = .removals roomId) :
    ∃ record, version.data = .removals record ∧ Bounded record := by
  obtain ⟨versionKey, data, etag, author⟩ := version
  cases key
  rcases kept.history (fun _ _ => rfl) member
    with ⟨-, -, initial⟩ | ⟨-, rule⟩ | ⟨old, -, -, -, -, rule⟩
  · obtain ⟨record, same, valid⟩ := first _ _ initial roomId rfl
    exact ⟨record, same, .of_valid valid⟩
  · obtain ⟨previous, after, -, same, bounded, -⟩ := removals_rule rule
    exact ⟨after, same, bounded⟩
  · obtain ⟨previous, after, -, same, bounded, -⟩ := removals_rule rule
    exact ⟨after, same, bounded⟩

/-- What one record of a room tells of every later one: a removal keeps its generation until it is
complete. -/
structure Succeeds (store : ChannelStore) (roomId : RoomId) (old new : RoomRemovals) : Prop where
  follows : Follows old new
  completed : ∀ ownerId entry later, old.owners.get ownerId = some entry →
    new.owners.get ownerId = some later →
    later.generation = entry.generation ∨ Completed store roomId ownerId entry.generation

/-- A version that replaces one goes on with what it replaces. -/
theorem Succeeds.next {first old new : RoomRemovals} {version : SharedVersion channelSetting}
    (succeeds : Succeeds store roomId first old) (at_ : RecordAt store roomId version old)
    (follows : Follows old new) (finished : Finished old new) :
    Succeeds store roomId first new where
  follows := succeeds.follows.trans follows
  completed := by
    intro ownerId entry later found found'
    obtain ⟨middle, between, -, -⟩ := succeeds.follows.owners ownerId entry found
    rcases succeeds.completed ownerId entry middle found between with same | done
    · obtain ⟨_, present, more, -⟩ := follows.owners ownerId middle between
      cases present.symm.trans found'
      rcases Nat.eq_or_lt_of_le more with equal | less
      · exact Or.inl (equal.symm.trans same)
      · exact Or.inr ⟨middle, ⟨version, old, at_, between⟩, same,
          finished ownerId middle later between found' less⟩
    · exact Or.inr done

/-- A later record of removals succeeds the earlier one. -/
theorem record_succeeds (kept : Kept (channelRules runtime regime) store)
    {earlier later : SharedVersion channelSetting} {old new : RoomRemovals}
    (one : RecordAt store roomId earlier old) (two : RecordAt store roomId later new)
    (order : earlier.etag ≤ later.etag) : Succeeds store roomId old new := by
  have self : Succeeds store roomId old old :=
    ⟨.refl old, fun _ _ _ found found' => Or.inl (by cases found.symm.trans found'; rfl)⟩
  -- The induction is along the versions that replace one another.
  have all := kept.since (fun _ _ => rfl) one.member
    (fun version => ∃ record, version.data = .removals record ∧ Succeeds store roomId old record)
      ⟨old, one.data, self⟩
    fun before inside after member key _ same _ rule held => ?_
  · obtain ⟨record, data, succeeds⟩ := all later two.member (two.key.trans one.key.symm) order
    cases data.symm.trans two.data
    exact succeeds
  · obtain ⟨record, data, succeeds⟩ := held
    have named : after.key = .removals roomId := key.trans one.key
    rw [named] at rule
    obtain ⟨previous, next, read, shape, -, follows⟩ := removals_rule rule
    refine ⟨next, shape, ?_⟩
    cases previous with
    | none => cases read
    | some previous =>
      obtain ⟨-, revision, number, has⟩ := read
      cases number
      cases (has.eq inside).trans data
      exact succeeds.next ⟨inside, same.trans named, data⟩ (follows _ rfl).1 (follows _ rfl).2

/-- A record that has been replaced is one that every reader accepts. -/
theorem record_replaced (kept : Kept (channelRules runtime regime) store)
    {earlier later : SharedVersion channelSetting} {old : RoomRemovals}
    (one : RecordAt store roomId earlier old) (inside : later ∈ store.versions)
    (key : later.key = .removals roomId) (order : earlier.etag < later.etag) :
    validRemovals old = true := by
  -- Each later version replaces this one, or one that replaced it before.
  have all := kept.since (fun _ _ => rfl) one.member (fun version => version.etag ≤ earlier.etag
    ∨ validRemovals old = true)
    (Or.inl (Nat.le_refl _)) fun before member after _ key between same _ rule held => ?_
  · exact (all later inside (key.trans one.key.symm) (Nat.le_of_lt order)).resolve_left
      (Nat.not_le.mpr order)
  · rcases held with self | valid
    · -- This is the version that replaces it.
      refine Or.inr ?_
      have first : before = earlier :=
        Versions.eq_of_etag member one.member (Nat.le_antisymm self between)
      subst first
      rw [key.trans one.key] at rule
      obtain ⟨previous, next, read, -⟩ := removals_rule rule
      -- A removal that is replaced was read first, and so was valid.
      cases previous with
      | none => cases read
      | some previous =>
        obtain ⟨valid, revision, number, has⟩ := read
        cases number
        cases (has.eq member).trans one.data
        exact valid
    · exact Or.inr valid

/-- The records of a room's removals are ordered by their generations. -/
theorem records_ordered (first : ∀ key data, regime.first key data → RemovalsFirst key data)
    (kept : Kept (channelRules runtime regime) store) (roomId : RoomId) : Ordered store roomId where
  record := fun version member key => by
    obtain ⟨record, data, -⟩ := record_bounded first kept member key
    exact ⟨record, data⟩
  bounded := fun version record held => by
    obtain ⟨other, data, bounded⟩ := record_bounded first kept held.member held.key
    cases data.symm.trans held.data
    exact bounded
  follows := fun earlier later old new one two order => (record_succeeds kept one two order).follows

end

/-! ## What an invite is worth -/

/-- The invite that an answer allows, and the human it is for. -/
def allowedInvite : (call : ChannelCall) → call.Reply → Option (InviteRecord × Option OwnerId)
  | .inviteRemovalState invite ownerId, .allowed => some (invite, ownerId)
  | .readEligibleInvite _ principal, .eligible invite _ => some (invite, some principal.ownerId)
  | _, _ => none

/-- The invite is as new as every recorded removal of its creator; and a human who was removed may
use it only when the room's creator made it, it is as new as the removal, and the removal is
complete. -/
structure Worth (store : ChannelStore) (invite : InviteRecord) (ownerId : Option OwnerId) :
    Prop where
  issuer : ∀ entry, Recorded store invite.roomId invite.creatorOwnerId entry →
    entry.generation ≤ invite.removalGeneration.getD 0
  target : ∀ target entry, ownerId = some target → Recorded store invite.roomId target entry →
    entry.generation ≤ invite.removalGeneration.getD 0
      ∧ Completed store invite.roomId target entry.generation
      ∧ ∀ version record, RecordAt store invite.roomId version record →
        invite.creatorOwnerId = record.creatorOwnerId

/-- An invite that is allowed is worth it. -/
theorem worth_of_allows {regime : Regime} {store : ChannelStore}
    (kept : Kept (channelRules runtime regime) store) {invite : InviteRecord}
    {ownerId : Option OwnerId} (allows : Allows invite ownerId store) :
    Worth store invite ownerId := by
  rcases allows with absent | ⟨version, removals, found, data, -, allowed⟩
  · -- Nothing has ever been recorded.
    have nothing := Register.none_of_current (fun _ => rfl) absent
    exact ⟨fun _ ⟨version, _, held, _⟩ => absurd held.key (nothing version held.member),
      fun _ _ _ ⟨version, _, held, _⟩ => absurd held.key (nothing version held.member)⟩
  · obtain ⟨member, key⟩ := Register.mem_of_current found
    have last : RecordAt store invite.roomId version removals := ⟨member, key, data⟩
    -- Each record of the room is followed by the last one.
    have succeeds : ∀ {other record}, RecordAt store invite.roomId other record →
      Succeeds store invite.roomId record removals :=
      fun held => record_succeeds kept held last (Register.le_current found held.member held.key)
    obtain ⟨issued, aimed⟩ := removalState_allowed allowed
    refine ⟨?_, ?_⟩
    -- The owners' removals are not newer than the invite.
    · rintro entry ⟨other, record, held, present⟩
      obtain ⟨later, found, more, -⟩ := (succeeds held).follows.owners _ entry present
      exact more.trans (issued later found)
    -- The removal of the owner himself is over and done with.
    · rintro target entry rfl ⟨other, record, held, present⟩
      obtain ⟨later, found, more, -⟩ := (succeeds held).follows.owners _ entry present
      obtain ⟨complete, newer, creator⟩ := aimed target later rfl found
      refine ⟨more.trans newer, ?_, fun other record held =>
        creator.trans (succeeds held).follows.creator⟩
      rcases (succeeds held).completed target entry later present found with same | done
      · exact ⟨later, ⟨version, removals, last, found⟩, same, complete⟩
      · exact done

section

variable {start config after : Config (channelService runtime)}
    {log answers : List (Answer (channelService runtime))}
  {move : Move (channelService runtime)}

/-- In every run the generations of a room and of the removals in it never go back, no removal is
ahead of its room, and agents stay listed; and an invite that an answer allows is worth it at that
moment. -/
theorem removal_generations (idle : start.Idle)
    (original : Original (channelRules runtime (freely RemovalsFirst)) start.store)
    (run : Run (fun _ _ => True) start log config)
    (moved : step config move = some (after, answers)) :
    (∀ roomId, Ordered after.store roomId) ∧
    ∀ answer ∈ answers, ∀ invite ownerId,
      allowedInvite answer.call answer.reply = some (invite, ownerId) →
      Worth after.store invite ownerId := by
  have free : Respects (channelRules runtime (freely RemovalsFirst))
    fun (_ : Config (channelService runtime)) _ => True := by
    intro _ _ _ _ _ op _ _ _ _
    refine ⟨trivial, ?_⟩
    cases op <;> trivial
  have safe : ∀ tag call, Follow runtime (freely RemovalsFirst) tag call (fun _ => True)
    (call.body runtime)
      (ChannelTrue runtime (freely RemovalsFirst) tag call) := channel_follow
  have answered := shared_answers free safe idle original.kept run trivial moved
  have kept := (shared_run free safe idle original.kept (run.step trivial moved)).1
  refine ⟨records_ordered (fun _ _ first => first) kept, ?_⟩
  rintro ⟨tag, call, reply⟩ member invite ownerId allowed
  obtain ⟨-, told⟩ := answered _ member
  -- Two calls answer that an invite is allowed.
  cases call with
  | inviteRemovalState asked owner =>
    cases reply with
    | allowed => cases allowed; exact worth_of_allows kept (told rfl)
    | revoked => cases allowed
    | unavailable => cases allowed
  | readEligibleInvite inviteRef principal =>
    cases reply with
    | eligible found revision => cases allowed; exact worth_of_allows kept told
    | failure result => cases allowed
  | recordRemoval roomId creatorOwnerId owner agents label => cases allowed
  | completeRemoval roomId owner generation => cases allowed
  | setAgentRemoved roomId userId removed => cases allowed
  | shareInvite owner operationId roomId policy => cases allowed
  | personalLink owner roomId => cases allowed
  | revokeInvite owner operationId inviteRef => cases allowed

end

/-! ## A removal and a new invite -/

/-- The name of a personal link's share, from which its parts can be told. -/
def plainPersonal (ownerId : OwnerId) (roomId : RoomId) (generation : Nat) : Text :=
  List.replicate generation 1 ++ 0 :: (ownerId.token.flatMap fun unit =>
    [1, unit]) ++ 0 :: roomId.text

/-- A runtime whose digests are their own texts. -/
def plainRuntime (lifetime : Option Nat) : AdmissionRuntime where
  token := id
  inviteRefDigest := fun inviteRef => inviteRef ++ [1]
  inviteRefDigest_ne := by simp
  personal := plainPersonal
  emailDigest := fun email => email ++ [2]
  emailDigest_ne := by simp
  normalizeEmail := some
  toLowerCase := id
  shareUrl := id
  inviteLifetimeMs := lifetime

/-- A room, its creator and a human who is removed. -/
def plainRoom : RoomId := ⟨[7], by decide⟩

def plainCreator : OwnerId := ⟨[1]⟩

def plainGuest : OwnerId := ⟨[2]⟩

/-- The invite that the creator makes after the removal. -/
private def laterInvite : InviteRecord where
  roomId := plainRoom
  creatorOwnerId := plainCreator
  inviteRefDigest := [5]
  removalGeneration := some 1
  policy := .link false
  status := .active
  expiresAt := none
  lastAuthorizedOperationDigest := none

/-- The guest is removed, the removal is completed, and then the invite is looked at. -/
private def removing : Config (channelService (plainRuntime none)) where
  store := emptyStore 0
  threads
    | 0 => .idle (do
      let _ ← @Program.call channelCalls (.recordRemoval plainRoom plainCreator plainGuest [[9]]
        [3])
      let _ ← @Program.call channelCalls (.completeRemoval plainRoom plainGuest 1)
      let _ ← @Program.call channelCalls (.inviteRemovalState laterInvite (some plainGuest)))
    | _ => .idle (.done ())
  next := 0

/-- A thread takes a step that is answered, with a random number at hand. -/
def channelStep {runtime : AdmissionRuntime} (thread random : Nat) :
    Move (channelService runtime) :=
  .effect thread ⟨true, .answered, random, fun
    | .currentPrincipal _ => .signedIn
    | .canShare .. => .allowed⟩

/-- A thread takes a number of steps, each with a random number of its own. -/
def channelSteps {runtime : AdmissionRuntime} (thread first count : Nat) :
    List (Move (channelService runtime)) :=
  (List.range' first count).map (channelStep thread)

/-- A run in which the guest is removed and an invite made since then is allowed. -/
theorem removal_generations_allowed : ∃ log config after answers,
    Run (fun _ _ => True) removing log config
      ∧ step config (channelStep 0 20) = some (after, answers) ∧
    (∀ roomId, Ordered after.store roomId) ∧
    ∃ answer ∈ answers, allowedInvite answer.call answer.reply = some (laterInvite, some plainGuest)
      ∧ Worth after.store laterInvite (some plainGuest) := by
  -- A removal is recorded, an invite is made after it, and the guest asks whether it is allowed.
  have ran : ∃ log config after answers, execute (fun _ _ => true) removing
      (Move.start 0 :: channelSteps 0 7 3 ++ Move.start 0 :: channelSteps 0 10 3 ++ [Move.start 0])
        = some (log, config)
      ∧ step config (channelStep 0 20) = some (after, answers)
      ∧ ∃ answer ∈ answers,
        allowedInvite answer.call answer.reply = some (laterInvite, some plainGuest) :=
    ⟨_, _, _, _, rfl, rfl, _, List.mem_cons_self, rfl⟩
  obtain ⟨log, config, after, answers, done, moved, answer, member, allowed⟩ := ran
  have idle : removing.Idle
    | 0 => ⟨_, rfl⟩
    | _ + 1 => ⟨_, rfl⟩
  have run : Run (fun _ _ => True) removing log config :=
    (Run.of_execute done).mono fun _ _ _ => trivial
  -- The answer allows it, so it is worth what the theorem states.
  obtain ⟨ordered, worth⟩ := removal_generations idle (emptyStore_original 0) run moved
  exact ⟨log, config, after, answers, run, moved, ordered, answer, member, allowed,
    worth answer member _ _ allowed⟩

end Khala.Channels
