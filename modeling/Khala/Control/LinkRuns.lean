import Khala.Control.ActiveLink

/-! Personal links over whole runs: one active invite, and every answer names one that was. -/

namespace Khala.Channels

open Js Concurrent

variable (runtime : AdmissionRuntime) (ownerId : OwnerId) (roomId : RoomId)

/-- An invite that is as new as every removal of the owner, in a room whose removals can be read. -/
def Timely (store : ChannelStore) (data : ChannelData) : Prop :=
  ∀ value, data = .invite value → ¬ Unreadable store roomId ∧
    ∀ entry, Recorded store roomId ownerId entry → entry.generation ≤ value.removalGeneration.getD 0

/-- The pointer of the link moves on only from an invite that is over, and a new invite of the link
is timely when it is stored. -/
structure Rotates (config : Config (channelService runtime))
    (move : Move (channelService runtime)) : Prop where
  starts : ∀ thread call client, move = .start thread →
    config.threads thread = .idle (.perform call client) →
    Foreign runtime call
  left : ∀ thread choice tag call key expected generation data next client,
    move = .effect thread choice →
    config.threads thread = .busy tag call
      (.perform (.compareAndSet key expected (.pointer ownerId roomId (generation + 1)) data)
      next) client → Dead runtime ownerId roomId config.store generation
  timely : ∀ write generation, Writes config move write →
    write.author.operation = .share (runtime.personal ownerId roomId generation) →
      Timely ownerId roomId config.store write.data

variable {runtime ownerId roomId} {seen : ChannelStore → Prop}
    {start config after : Config (channelService runtime)}
  {log answers : List (Answer (channelService runtime))} {move : Move (channelService runtime)}

/-! ## One active invite -/

/-- The moves allowed, and what is known of the calls under way. -/
def Linked (runtime : AdmissionRuntime) (ownerId : OwnerId) (roomId : RoomId)
    (config : Config (channelService runtime)) (move : Move (channelService runtime)) : Prop :=
  Rotates runtime ownerId roomId config move ∧ config.Calling (Foreign runtime)

/-- A run whose steps meet the condition is one that the rules allow. -/
theorem Linked.of_run (idle : start.Idle)
    (run : Run (Rotates runtime ownerId roomId) start log config) :
    Run (Linked runtime ownerId roomId) start log config ∧ config.Calling (Foreign runtime) :=
  run.strengthen (idle.calling _)
    (fun calling permitted moved =>
      (Config.Calling.step calling moved fun thread call client same ready =>
      permitted.starts thread call client same ready).1) fun calling permitted =>
        ⟨permitted, calling⟩

/-- What the condition allows respects the rules. -/
theorem linked_respects :
    Respects (channelRules runtime (linking runtime ownerId roomId fun _ => True))
    (Linked runtime ownerId roomId) := by
  intro config thread choice tag call op next client permitted busy
  refine ⟨trivial, ?_⟩
  -- Only a write has a rule to obey, and its generation is the one asked about.
  cases op with
  | compareAndSet key expected operation data =>
    refine ⟨permitted.2 thread tag call _ client busy, ?_⟩
    rintro generation rfl
    exact permitted.1.left thread choice tag call key expected generation data next client rfl busy
  | read key => trivial
  | resolve key operation => trivial
  | clock => trivial
  | random => trivial
  | ask question => trivial

/-- In every such run the store is kept. -/
theorem linked_kept (idle : start.Idle)
    (original :
      Original (channelRules runtime (linking runtime ownerId roomId fun _ => True)) start.store)
    (run : Run (Linked runtime ownerId roomId) start log config) :
    Kept (channelRules runtime (linking runtime ownerId roomId fun _ => True)) config.store :=
  (shared_run linked_respects channel_follow idle original.kept run).1

/-! ## A new invite -/

/-- An invite of the link that has just been stored lets everybody pass who has never been removed,
unless it expires at once. -/
theorem landed (apart : Apart runtime)
    (kept : Kept (channelRules runtime (linking runtime ownerId roomId seen)) after.store)
    (permitted : Rotates runtime ownerId roomId config move)
    (moved : step config move = some (after, answers)) {generation : Nat}
    (absent : ∀ version ∈ Shared.versions config.store,
      version.key ≠ .invite (personalRef runtime ownerId roomId generation))
    {version : SharedVersion channelSetting} (inside : version ∈ Shared.versions after.store)
    (key : version.key = .invite (personalRef runtime ownerId roomId generation)) :
    Good runtime roomId after.store (personalRef runtime ownerId roomId generation) ∨
      ∃ value time, HasInvite runtime ownerId roomId after.store generation value
        ∧ value.expiresAt = some time
        ∧ time ≤ Shared.now after.store := by
  rcases step_versions moved with same | ⟨write, added, writes, adds, made⟩
  · exact absurd key (absent version (same ▸ inside))
  -- Nothing else is under the reference.
  have only : ∀ other ∈ Shared.versions after.store,
      other.key = .invite (personalRef runtime ownerId roomId generation) → other = added := by
    intro other member key
    rw [adds] at member
    rcases List.mem_cons.mp member with same | old
    · exact same
    · exact absurd key (absent other old)
  have before : ∀ other ∈ Shared.versions after.store, other.key = .removals roomId →
    other ∈ Shared.versions config.store := by
    intro other member named
    rw [adds] at member
    rcases List.mem_cons.mp member with rfl | old
    · rw [← only version inside key, key] at named
      cases named
    · exact old
  obtain rfl := only version inside key
  have fresh : ∃ value, version.data = .invite value ∧ value.status = .active
      ∧ version.author.operation = .share (runtime.personal ownerId roomId generation) := by
    rcases kept.versions version inside with ⟨-, -, first⟩ | ⟨expected, rule, replaces⟩
    · exact absurd key (first.2.1 _)
    rw [key] at rule
    rcases personal_rule apart rule
      with ⟨-, own, -, value, data, active, -⟩ | ⟨revision, old, invite, rfl, -⟩
    · exact ⟨value, data, active, own⟩
    · obtain ⟨old, found, -⟩ := replaces
      obtain ⟨member, named, earlier⟩ := Register.replaced_eq_some found
      rw [only old member (named.trans key)] at earlier
      exact absurd earlier (Nat.lt_irrefl _)
  obtain ⟨value, data, active, own⟩ := fresh
  obtain ⟨readable, newer⟩ :=
    permitted.timely write generation writes (made.author ▸ own) value (made.data.symm.trans data)
  rcases good_or_bad apart kept inside key with good | ⟨other, ⟨second, member, key', data'⟩, bad⟩
  · exact Or.inl good
  rw [only second member key', data] at data'
  cases data'
  have back : ∀ {other record}, RecordAt after.store roomId other record →
    RecordAt config.store roomId other record :=
    fun held => ⟨before _ held.member held.key, held.key, held.data⟩
  rcases bad with (revoked | ⟨time, expires, past⟩ | ⟨entry, ⟨other, record, held, found⟩,
    older⟩) | ⟨other, record, held, invalid⟩
  · cases active.symm.trans revoked
  · exact Or.inr ⟨value, time, ⟨version, inside, key, data⟩, expires, past⟩
  · exact absurd older (Nat.not_lt.mpr (newer entry ⟨other, record, back held, found⟩))
  · exact absurd ⟨other, record, back held, invalid⟩ readable

/-! ## During a call -/

/-- What is seen of the store during a request for the link: each of its invites is not there, or it
has let everybody pass at a moment of the request, or it was over or removals could not be read when
the request began, or it has expired. -/
def SeenLinks (runtime : AdmissionRuntime) (ownerId : OwnerId) (roomId : RoomId)
    (begun : ChannelStore) (passed : Nat → Prop) (store : ChannelStore) : Prop :=
  ∀ generation,
    (∀ version ∈ store.versions,
      version.key ≠ .invite (personalRef runtime ownerId roomId generation)) ∨
    passed generation ∨ Bad runtime ownerId roomId begun generation ∨
    ∃ value time, HasInvite runtime ownerId roomId store generation value
      ∧ value.expiresAt = some time ∧ time ≤ store.now

section

variable {thread tag : Nat} {call : ChannelCall} {client : call.Reply → Program channelCalls Unit}
  {begun : Config (channelService runtime)} {first : List (Answer (channelService runtime))}

/-- The invite lets everybody pass at a moment between the start of the call and now. -/
def Passed (thread tag : Nat) (call : ChannelCall) (client : call.Reply → Program channelCalls Unit)
    (begun config : Config (channelService runtime)) (ownerId : OwnerId) (roomId : RoomId)
    (generation : Nat) : Prop :=
  ∃ middle earlier later,
    Run (During (Linked runtime ownerId roomId) thread tag call client) begun earlier middle
    ∧ Run (During (Linked runtime ownerId roomId) thread tag call client) middle later config
    ∧ Good runtime roomId middle.store (personalRef runtime ownerId roomId generation)

/-- A link that was answered passed at some moment of its call. -/
theorem seen_links (apart : Apart runtime) (idle : start.Idle)
    (original :
      Original (channelRules runtime (linking runtime ownerId roomId fun _ => True)) start.store)
    (before : Run (Linked runtime ownerId roomId) start first begun)
    {earlier later : List (Answer (channelService runtime))}
    {middle : Config (channelService runtime)}
    (run : Run (During (Linked runtime ownerId roomId) thread tag call client) begun earlier middle)
    (rest : Run (During (Linked runtime ownerId roomId) thread tag call client) middle
      later config) :
    SeenLinks runtime ownerId roomId begun.store
      (Passed thread tag call client begun config ownerId roomId) middle.store := by
  -- Up to any of these moves the run is a run of links.
  have linked : ∀ {log middle},
    Run (During (Linked runtime ownerId roomId) thread tag call client) begun log middle →
      Run (Linked runtime ownerId roomId) start (first ++ log) middle :=
    fun run => before.trans (run.mono fun _ _ permitted => permitted.1)
  -- The induction is on the run during the call, where each move may add a link.
  induction run generalizing later with
  | nil =>
    intro generation
    -- At the start a link of the generation is there or is not.
    by_cases present : ∃ version ∈ Shared.versions begun.store,
        version.key = .invite (personalRef runtime ownerId roomId generation)
    · obtain ⟨version, inside, key⟩ := present
      rcases good_or_bad apart (linked_kept idle original before) inside key with good | bad
      · exact Or.inr (Or.inl ⟨begun, [], later, .nil, rest, good⟩)
      · exact Or.inr (Or.inr (Or.inl bad))
    · exact Or.inl fun version inside key => present ⟨version, inside, key⟩
  | @step log middle after move answers run permitted moved ih =>
    -- What was seen before the move is seen after it too.
    have seen := ih ((Run.nil.step permitted moved).trans rest)
    have so_far := linked run
    have kept := linked_kept idle original (so_far.step permitted.1 moved)
    have grown :=
      shared_grown linked_respects channel_follow idle original.kept so_far permitted.1 moved
    intro generation
    -- Only a link that was absent can be new by this move.
    rcases seen generation with absent | passed | bad | ⟨value, time, has, expires, past⟩
    · by_cases present : ∃ version ∈ Shared.versions after.store,
          version.key = .invite (personalRef runtime ownerId roomId generation)
      · obtain ⟨version, inside, key⟩ := present
        rcases landed apart kept permitted.1.1 moved absent inside key with good | expired
        · exact Or.inr (Or.inl ⟨after, _, later, run.step permitted moved, rest, good⟩)
        · exact Or.inr (Or.inr (Or.inr expired))
      · exact Or.inl fun version inside key => present ⟨version, inside, key⟩
    · exact Or.inr (Or.inl passed)
    · exact Or.inr (Or.inr (Or.inl bad))
    · exact Or.inr (Or.inr (Or.inr ⟨value, time, has.grow grown, expires, past.trans grown.clock⟩))

end

/-- An invite that a request sees as current was neither over nor unreadable when the request began.
-/
theorem not_bad (apart : Apart runtime) {begun moment : ChannelStore}
    {removals : Option RoomRemovals} {generation : Nat} {version : SharedVersion channelSetting}
    {invite : InviteRecord}
    (kept : Kept (channelRules runtime (linking runtime ownerId roomId seen)) moment)
    (looked : Once (channelRules runtime (linking runtime ownerId roomId seen)) (fun store => Grown (fun _ _ => True) begun store ∧ RemovalsTrue roomId (some removals) store) moment)
    (found : moment.register.current (fun _ => true) (.invite (personalRef runtime ownerId roomId generation)) = some version)
    (read : readInviteRecord version.data = some invite)
    (newer : (removals.map (·.generation)).getD 0 ≤ invite.removalGeneration.getD 0)
    (active : invite.status = .active)
    (live : ∀ time, invite.expiresAt = some time → moment.now < time) :
    ¬ Bad runtime ownerId roomId begun generation := by
  rintro ⟨value, has, bad⟩
  obtain ⟨early, keptEarly, until_, since, looked⟩ := looked
  have grown : Grown (fun _ _ => True) begun moment :=
    .trans (R := channelRules runtime (linking runtime ownerId roomId seen))
    since until_
  obtain ⟨earlier, inside, key, data⟩ := has.grow grown
  obtain ⟨member, key'⟩ := Register.mem_of_current found
  obtain ⟨⟨new, data', personal⟩, -⟩ := personal_version apart kept generation version member key'
  rw [data'] at read
  cases personal.read.symm.trans read
  have carries := personal_since apart kept inside key data member (key'.trans key.symm) data'
    (Register.le_current found inside key)
  -- What the room's removals were when the request read them.
  have later : ∀ {other record}, RecordAt begun roomId other record → ∃ last removals', removals = some removals'
      ∧ RecordAt early roomId last removals' ∧ other.etag ≤ last.etag ∧ validRemovals removals' = true := by
    intro other record held
    have held := held.grow since
    cases removals with
    | none => exact absurd held.key (Register.none_of_current (fun _ => rfl) looked other held.member)
    | some removals' =>
      obtain ⟨valid, last, current, content⟩ := looked
      obtain ⟨member, named⟩ := Register.mem_of_current current
      exact ⟨last, removals', rfl, ⟨member, named, content⟩,
        Register.le_current current held.member held.key, valid⟩
  rcases bad with (revoked | ⟨time, expires, past⟩ | ⟨entry, ⟨other, record, held, present⟩,
    older⟩) | ⟨other, record, held, invalid⟩
  · cases active.symm.trans (carries.revoked revoked)
  · exact absurd (past.trans grown.clock) (not_le.mpr (live time (carries.expiresAt.trans expires)))
  · obtain ⟨last, removals', rfl, at_, order, valid⟩ := later held
    obtain ⟨entry', present', more, -⟩ :=
      (record_succeeds keptEarly (held.grow since) at_ order).follows.owners _ entry present
    have bound := Bounded.of_valid valid _ entry' present'
    rw [carries.removalGeneration] at newer
    exact absurd older (Nat.not_lt.mpr (more.trans (bound.trans newer)))
  · obtain ⟨last, removals', rfl, at_, order, valid⟩ := later held
    have held := held.grow since
    rcases Nat.lt_or_eq_of_le order with less | same
    · cases invalid.symm.trans (record_replaced keptEarly held at_.member at_.key less)
    · cases Versions.eq_of_etag held.member at_.member same
      cases held.data.symm.trans at_.data
      cases invalid.symm.trans valid

/-! ## Answers -/

/-- The link that a request is granted. -/
def linkGrant : (call : ChannelCall) → call.Reply → Option (OwnerId × RoomId × ShareGrant)
  | .personalLink ownerId roomId, .ok shared => some (ownerId, roomId, shared)
  | _, _ => none

/-- A grant is the answer of a personal link. -/
theorem linkGrant_eq {call : ChannelCall} {reply : call.Reply} {shared : ShareGrant}
    (granted : linkGrant call reply = some (ownerId, roomId, shared)) :
    call = .personalLink ownerId roomId ∧ HEq reply (OperationResult.ok shared) := by
  -- Only the answer of a personal link grants anything.
  cases call with
  | personalLink owner room =>
    cases reply with
    | ok value =>
      cases granted
      exact ⟨rfl, .rfl⟩
    | rejected code => cases granted
    | unavailable => cases granted
    | outcomeUnknown operation => cases granted
    | threw => cases granted
  | recordRemoval _ _ _ _ _ => cases granted
  | completeRemoval _ _ _ => cases granted
  | inviteRemovalState _ _ => cases granted
  | setAgentRemoved _ _ _ => cases granted
  | readEligibleInvite _ _ => cases granted
  | shareInvite _ _ _ _ => cases granted
  | revokeInvite _ _ _ => cases granted

/-- The store is kept also by the rules that say what is seen. -/
theorem kept_seeing {before after : ChannelStore → Prop} {store : ChannelStore}
    (kept : Kept (channelRules runtime (linking runtime ownerId roomId before)) store) :
    Kept (channelRules runtime (linking runtime ownerId roomId after)) store :=
  ⟨kept.versions, kept.late, kept.versionsDrawn, kept.lateDrawn, kept.claims, kept.ruled,
    kept.versionsClaimed, kept.lateClaimed,
    kept.numbers⟩

/-- A request for the link is answered with an invite that has let everybody pass, who was never
removed, at a moment of the request. -/
theorem link_answered (apart : Apart runtime) (idle : start.Idle)
    (original :
      Original (channelRules runtime (linking runtime ownerId roomId fun _ => True)) start.store)
    (run : Run (Linked runtime ownerId roomId) start log config)
    (permitted : Linked runtime ownerId roomId config move)
    (moved : step config move = some (after, answers)) {answer : Answer (channelService runtime)}
    (member : answer ∈ answers) {shared : ShareGrant}
    (granted : linkGrant answer.call answer.reply = some (ownerId, roomId, shared)) :
    ∃ middle earlier later, Run (Linked runtime ownerId roomId) start earlier middle
      ∧ Run (Linked runtime ownerId roomId) middle later config ∧ middle.InFlight answer.tag
      ∧ Good runtime roomId middle.store shared.inviteRef := by
  obtain ⟨tag, call, reply⟩ := answer
  obtain ⟨rfl, same⟩ := linkGrant_eq granted
  cases same
  rcases answered_by moved member
    with ⟨thread, -, body⟩ | ⟨thread, choice, op, next, client, reply, rfl, busy, ran, ended⟩
  · cases body
  -- The answer ends a call that has been under way since some earlier moment.
  have under : config.Under thread tag (ChannelCall.personalLink ownerId roomId) client :=
    ⟨op, next, busy⟩
  obtain ⟨first, before, begun, rest, run', starting, started, -, -, body, -, along⟩ :=
    run.since idle under
  have toBegun : Run (Linked runtime ownerId roomId) start (first ++ []) begun :=
    run'.step starting started
  -- What happened during the call belongs to the run.
  have linked : ∀ {one two : Config (channelService runtime)} {log},
      Run (During (Linked runtime ownerId roomId) thread tag (.personalLink ownerId roomId) client)
        one log two →
        Run (Linked runtime ownerId roomId) one log two :=
          fun run => run.mono fun _ _ permitted => permitted.1
  -- The request keeps the rules also when it is said what it sees.
  let passed := Passed thread tag (.personalLink ownerId roomId) client begun config ownerId roomId
  let sees := SeenLinks runtime ownerId roomId begun.store passed
  let rules := channelRules runtime (linking runtime ownerId roomId fun _ => True)
  let seeing := channelRules runtime (linking runtime ownerId roomId sees)
  have respects : Respects rules (Linked runtime ownerId roomId) := linked_respects
  have holds := sharedContract_holds respects channel_follow
  have known : Persistent seeing (Grown (fun _ _ => True) begun.store) := fun _ _ grown since =>
    Grown.trans (R := seeing) since grown
  -- The call's program keeps these rules from its beginning.
  have safe : (ChannelCall.body runtime (.personalLink ownerId roomId)).Safe _
    (sharedDuty seeing tag (.personalLink ownerId roomId))
      (fun reply _ after =>
        Kept seeing after ∧ PersonalTrue runtime (linking runtime ownerId roomId sees)
        (Grown (fun _ _ => True) begun.store) tag (.personalLink ownerId roomId) ownerId roomId
          reply after) begun.store begun.store :=
    personalLink_follow known begun.store begun.store
      (kept_seeing (linked_kept idle original toBegun)) (Grown.refl seeing _)
  have trans : ∀ op {first second third},
    (sharedDuty seeing tag (.personalLink ownerId roomId)).rely op first second →
      (sharedDuty seeing tag (.personalLink ownerId roomId)).rely op second third →
        (sharedDuty seeing tag (.personalLink ownerId roomId)).rely op first third :=
          fun _ _ _ _ one two => one.trans two
  have rely :
    ∀ op before after, (sharedDuty rules tag (.personalLink ownerId roomId)).rely op before after →
      (sharedDuty seeing tag (.personalLink ownerId roomId)).rely op before after :=
    fun _ _ _ others => ⟨others.grown, others.versions, others.late⟩
  have permits : ∀ op store,
    (sharedDuty rules tag (.personalLink ownerId roomId)).permits op store → sees store →
      (sharedDuty seeing tag (.personalLink ownerId roomId)).permits op store :=
    fun _ _ permitted seen => ⟨kept_seeing permitted.1, seen, permitted.2.2⟩
  obtain ⟨sound, -, op', next', busy', safe⟩ := Contract.watch holds trans rely permits
    (holds.run idle ⟨original.kept, by simp⟩ toBegun) (toBegun.numbered idle) body safe along
    (fun run rest => seen_links apart idle original toBegun run rest) under
  cases busy.symm.trans busy'
  -- The last operation answers, and what the answer tells holds then.
  have told := (safe config.store choice reply after.store (Others.refl _) (permits _ _
    ⟨sound.invariant.1, linked_respects config thread choice tag _ op next client permitted busy⟩
    (seen_links apart idle original toBegun along .nil)) ran).2
  rw [ended] at told
  obtain ⟨-, generation, shape, -, moment, removals, revision, data, invite, kept, seen, looked,
    read, decoded, -, -, newer, active,
    live⟩ := told
  have reference : shared.inviteRef = personalRef runtime ownerId roomId generation :=
    congrArg ShareGrant.inviteRef shape
  rw [reference] at read ⊢
  obtain ⟨version, found, -, rfl⟩ := read
  obtain ⟨inside, key⟩ := Register.mem_of_current found
  -- Up to the answer the call was in flight.
  have flying : ∀ {middle log},
    Run (During (Linked runtime ownerId roomId) thread tag (.personalLink ownerId roomId) client)
      middle log config → middle.InFlight tag := by
    intro middle log run
    obtain ⟨op, next, busy⟩ := run.under under
    exact ⟨thread, _, _, client, busy⟩
  -- What the request saw decides where the good moment was.
  rcases seen generation with absent | ⟨middle, earlier, later, run, rest, good⟩ | bad | ⟨value,
    time, has, expires, past⟩
  · exact absurd key (absent version inside)
  · exact ⟨middle, _, _, toBegun.trans (linked run), linked rest, flying rest, good⟩
  · exact absurd bad (not_bad apart kept looked found decoded newer active live)
  · -- The invite that is read expires when the one there was expired.
    obtain ⟨other, member, key', data⟩ := has
    obtain ⟨⟨new, data', personal⟩, -⟩ := personal_version apart kept generation version inside key
    rw [data'] at decoded
    cases personal.read.symm.trans decoded
    have carries := personal_since apart kept member key' data inside (key.trans key'.symm) data'
      (Register.le_current found member key')
    exact absurd past (not_le.mpr (live time (carries.expiresAt.trans expires)))

/-- In every run in which the pointer of a link moves on only from an invite that is over, and each
new invite is timely when it is stored, at most one invite of the link lets somebody pass at a time,
and a request for the link is answered with one that has let everybody pass, who was never removed,
at a moment of the request. -/
theorem one_active_link (apart : Apart runtime) (idle : start.Idle)
    (original :
      Original (channelRules runtime (linking runtime ownerId roomId fun _ => True)) start.store)
    (run : Run (Rotates runtime ownerId roomId) start log config) :
    (∀ one two first second,
      LetsPass runtime config.store (personalRef runtime ownerId roomId one) first →
      LetsPass runtime config.store (personalRef runtime ownerId roomId two) second → one = two) ∧
    ∀ move after answers, Rotates runtime ownerId roomId config move →
    step config move = some (after, answers) →
      ∀ answer ∈ answers, ∀ shared,
        linkGrant answer.call answer.reply = some (ownerId, roomId, shared) →
        ∃ middle earlier later, Run (Rotates runtime ownerId roomId) start earlier middle
          ∧ Run (Rotates runtime ownerId roomId) middle later config ∧ middle.InFlight answer.tag
          ∧ Good runtime roomId middle.store shared.inviteRef := by
  obtain ⟨linked, calling⟩ := Linked.of_run idle run
  refine ⟨fun one two first second => one_passes apart (linked_kept idle original linked), ?_⟩
  intro move after answers permitted moved answer member shared granted
  obtain ⟨middle, earlier, later, before, rest, flying, good⟩ :=
    link_answered apart idle original linked ⟨permitted, calling⟩ moved member granted
  exact ⟨middle, earlier, later, before.mono fun _ _ linked =>
    linked.1, rest.mono fun _ _ linked => linked.1, flying, good⟩

/-! ## A link and a removal -/

/-- Different owners, rooms and generations have different links. -/
theorem plainPersonal_inj {ownerId ownerId' : OwnerId} {roomId roomId' : RoomId}
    {generation generation' : Nat}
    (same : plainPersonal ownerId roomId generation = plainPersonal ownerId' roomId' generation') :
    ownerId = ownerId' ∧ roomId = roomId' ∧ generation = generation' := by
  -- The generation is the number of ones at the start, and every unit of the owner follows a one.
  have tail : ∀ (one two room room' : Text), (one.flatMap fun unit => [1, unit]) ++ 0 :: room
      = (two.flatMap fun unit => [1, unit]) ++ 0 :: room' → one = two ∧ room = room' := by
    intro one
    induction one with
    | nil =>
      intro two room room' same
      cases two with
      | nil => exact ⟨rfl, (List.cons.inj same).2⟩
      | cons unit two => exact absurd (List.cons.inj same).1 (by decide)
    | cons unit one ih =>
      intro two room room' same
      cases two with
      | nil => exact absurd (List.cons.inj same).1 (by decide)
      | cons other two =>
        obtain ⟨-, same⟩ := List.cons.inj same
        obtain ⟨first, same⟩ := List.cons.inj same
        obtain ⟨rfl, rooms⟩ := ih two room room' same
        exact ⟨first ▸ rfl, rooms⟩
  have whole : ∀ (one two : Nat) (first second : Text),
    List.replicate one (1 : UInt16) ++ 0 :: first
      = List.replicate two 1 ++ 0 :: second → one = two ∧ first = second := by
    intro one
    induction one with
    | zero =>
      intro two first second same
      cases two with
      | zero => exact ⟨rfl, (List.cons.inj same).2⟩
      | succ two => exact absurd (List.cons.inj same).1 (by decide)
    | succ one ih =>
      intro two first second same
      cases two with
      | zero => exact absurd (List.cons.inj same).1 (by decide)
      | succ two =>
        obtain ⟨rfl, rest⟩ := ih two first second (List.cons.inj same).2
        exact ⟨rfl, rest⟩
  obtain ⟨token⟩ := ownerId
  obtain ⟨token'⟩ := ownerId'
  obtain ⟨text, nonempty⟩ := roomId
  obtain ⟨text', nonempty'⟩ := roomId'
  simp only [plainPersonal, List.append_assoc, List.cons_append] at same
  obtain ⟨rfl, rest⟩ := whole _ _ _ _ same
  obtain ⟨rfl, rfl⟩ := tail _ _ _ _ rest
  exact ⟨rfl, rfl, rfl⟩

/-- The plain runtime keeps its links apart. -/
theorem plain_apart (lifetime : Option Nat) : Apart (plainRuntime lifetime) :=
  ⟨Function.injective_id, plainPersonal_inj⟩

/-- The creator asks for the link, removes a guest, and asks for the link again. -/
private def linkingTwice : Config (channelService (plainRuntime none)) where
  store := emptyStore 0
  threads
    | 0 => .idle (do
      let _ ← @Program.call channelCalls (.personalLink plainCreator plainRoom)
      let _ ← @Program.call channelCalls (.recordRemoval plainRoom plainCreator plainGuest [] [])
      let _ ← @Program.call channelCalls (.personalLink plainCreator plainRoom))
    | _ => .idle (.done ())
  next := 0

/-- No call has begun. -/
private theorem linkingTwice_idle : linkingTwice.Idle
  | 0 => ⟨_, rfl⟩
  | _ + 1 => ⟨_, rfl⟩

/-- A move that starts no share. -/
private def foreignCheck (config : Config (channelService (plainRuntime none))) :
    Move (channelService (plainRuntime none)) → Bool
  | .start thread => match config.threads thread with
    | .idle (.perform (.shareInvite ..) _) => false
    | _ => true
  | _ => true

/-- The check that a call is foreign is sound. -/
private theorem foreign_of_check {config : Config (channelService (plainRuntime none))}
    {move : Move (channelService (plainRuntime none))} (passed : foreignCheck config move = true)
    (thread : Nat) (call : ChannelCall) (client : call.Reply → Program channelCalls Unit)
    (starts : move = .start thread) (ready : config.threads thread = .idle (.perform call client)) :
    Foreign (plainRuntime none) call := by
  subst starts
  -- The check refuses a shared invitation, and no other call is foreign.
  cases call with
  | shareInvite ownerId operationId roomId asked =>
    simp only [foreignCheck, ready] at passed
    cases passed
  | recordRemoval _ _ _ _ _ => trivial
  | completeRemoval _ _ _ => trivial
  | inviteRemovalState _ _ => trivial
  | setAgentRemoved _ _ _ => trivial
  | readEligibleInvite _ _ => trivial
  | personalLink _ _ => trivial
  | revokeInvite _ _ _ => trivial

/-- Someone who has never been removed. -/
private def stranger : AuthPrincipal := ⟨⟨[5]⟩, []⟩

/-- No record of the store names the human. -/
private def namesNobody (store : ChannelStore) (ownerId : OwnerId) : Bool :=
  store.versions.all fun version => match version.data with
    | .removals record => (record.owners.get ownerId).isNone
    | _ => true

/-- The check that nobody was removed is sound. -/
private theorem neverRemoved_of {store : ChannelStore} {principal : AuthPrincipal}
    (nobody : namesNobody store principal.ownerId = true) :
    NeverRemoved store plainRoom principal := by
  rintro entry ⟨version, record, held, found⟩
  have absent := List.all_eq_true.mp nobody version held.member
  simp only [held.data, found] at absent
  cases absent

/-- Whether somebody passes with the link's invite of a generation. -/
private def passes (store : ChannelStore) (generation : Nat) (principal : AuthPrincipal) : Bool :=
  match (readEligibleInvite (plainRuntime none)
    (personalRef (plainRuntime none) plainCreator plainRoom generation) principal).alone
    (execShared (T := channelSetting) 0 (ChannelCall.readEligibleInvite
      (personalRef (plainRuntime none) plainCreator plainRoom generation) principal))
        answered store with
  | some (.eligible _ _, _) => true
  | _ => false

/-- The check that an invite lets somebody pass is sound. -/
private theorem letsPass_of_passes {store : ChannelStore} {generation : Nat}
    {principal : AuthPrincipal} (lets : passes store generation principal = true) :
    LetsPass (plainRuntime none) store
      (personalRef (plainRuntime none) plainCreator plainRoom generation) principal := by
  unfold passes at lets
  split at lets
  · rename_i same
    exact ⟨_, _, _, same⟩
  · cases lets

/-- After a removal of somebody else the link gets a new invite, and the old one lets people pass
all the same. -/
theorem two_active_links :
    ¬ ∀ log config, Run (fun config move => ∀ thread call client, move = .start thread →
      config.threads thread = .idle (.perform call client) → Foreign (plainRuntime none) call)
        linkingTwice log config →
    ∀ one two first second, NeverRemoved config.store plainRoom first →
    NeverRemoved config.store plainRoom second →
      LetsPass (plainRuntime none) config.store
        (personalRef (plainRuntime none) plainCreator plainRoom one) first →
      LetsPass (plainRuntime none) config.store
        (personalRef (plainRuntime none) plainCreator plainRoom two) second → one = two := by
  -- The creator asks twice, and each time a link is made.
  have ran : (execute foreignCheck linkingTwice
      (Move.start 0 :: channelSteps 0 0 12 ++ Move.start 0 :: channelSteps 0 20 3
        ++ Move.start 0 :: channelSteps 0 30 13)).map (fun (_, config) =>
        namesNobody config.store stranger.ownerId && passes config.store 0 stranger
          && passes config.store 1 stranger)
      = some true := by
    decide +kernel
  -- Both links let the stranger pass, though only one may be active.
  intro always
  obtain ⟨⟨log, config⟩, done, all⟩ := Option.map_eq_some_iff.mp ran
  simp only [Bool.and_eq_true] at all
  have run := (Run.of_execute done).mono fun _ _ => foreign_of_check
  have never := neverRemoved_of all.1.1
  exact absurd (always log config run 0 1 stranger stranger never never
    (letsPass_of_passes all.1.2) (letsPass_of_passes all.2))
    (by decide)

/-- Whether a move also leaves the pointer where it is once it is there, and stores invites only
while nobody is removed. -/
private def rotatesCheck (config : Config (channelService (plainRuntime none)))
    (move : Move (channelService (plainRuntime none))) :
    Bool :=
  foreignCheck config move && match move with
    | .effect thread _ => match config.threads thread with
      -- Only the first pointer of an owner is written.
      | .busy _ _ (.perform (.compareAndSet _ _ (.pointer _ _ generation) _) _) _ => generation == 0
      -- Nothing else is written once a removal is there.
      | .busy _ _ (.perform (.compareAndSet _ _ _ _) _) _ =>
        (Shared.versions config.store).all fun version => match version.data with
          | .removals _ => false
          | _ => true
      | _ => true
    | .outside (.land _) => false
    | _ => true

/-- The check of the condition is sound. -/
private theorem rotates_of_check {config : Config (channelService (plainRuntime none))}
    {move : Move (channelService (plainRuntime none))} (passed : rotatesCheck config move = true) :
    Rotates (plainRuntime none) plainCreator plainRoom config move := by
  simp only [rotatesCheck, Bool.and_eq_true] at passed
  -- The check is made of the same three parts.
  obtain ⟨foreign, passed⟩ := passed
  refine ⟨foreign_of_check foreign, ?_, ?_⟩
  · rintro thread choice tag call key expected generation data next client rfl busy
    simp only [busy] at passed
    cases passed
  · rintro _ generation (⟨choice, busy⟩ | waiting) own
    · -- There is no record of removals yet.
      dsimp only at own
      subst own
      simp only [busy] at passed
      have none_ : ∀ {version record}, ¬ RecordAt config.store plainRoom version record := by
        intro version record held
        have absent := List.all_eq_true.mp passed version held.member
        simp only [held.data] at absent
        cases absent
      exact fun value _ =>
        ⟨fun ⟨_, _, held, _⟩ => none_ held, fun _ ⟨_, _, held, _⟩ => absurd held none_⟩
    · cases passed

/-- A run in which the creator gets a link, which lets everybody pass at that time. -/
theorem one_active_link_granted : ∃ log config after answers,
    Run (Rotates (plainRuntime none) plainCreator plainRoom) linkingTwice log config
    ∧ step config (channelStep 0 20) = some (after, answers)
    ∧ ∃ answer ∈ answers, ∃ shared,
      linkGrant answer.call answer.reply = some (plainCreator, plainRoom, shared)
      ∧ ∃ middle earlier later,
        Run (Rotates (plainRuntime none) plainCreator plainRoom) linkingTwice earlier middle
        ∧ Run (Rotates (plainRuntime none) plainCreator plainRoom) middle later config
        ∧ middle.InFlight answer.tag
        ∧ Good (plainRuntime none) plainRoom middle.store shared.inviteRef := by
  have ran : ∃ log config after answers,
    execute rotatesCheck linkingTwice (.start 0 :: channelSteps 0 0 11) = some (log, config)
      ∧ rotatesCheck config (channelStep 0 20) = true
      ∧ step config (channelStep 0 20) = some (after, answers)
      ∧ ∃ answer ∈ answers, ∃ shared,
        linkGrant answer.call answer.reply = some (plainCreator, plainRoom, shared) :=
    ⟨_, _, _, _, rfl, rfl, rfl, _, List.mem_cons_self, _, rfl⟩
  obtain ⟨log, config, after, answers, done, passed, moved, answer, member, shared, granted⟩ := ran
  have run := (Run.of_execute done).mono fun _ _ => rotates_of_check
  have active :=
    (one_active_link (plain_apart none) linkingTwice_idle (emptyStore_original 0) run).2
  exact ⟨log, config, after, answers, run, moved, answer, member, shared, granted,
    active _ after answers (rotates_of_check passed) moved answer member shared granted⟩

end Khala.Channels
