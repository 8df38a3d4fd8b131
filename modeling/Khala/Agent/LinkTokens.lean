import Khala.Agent.LocalSecrets
import Mathlib.Data.List.Perm.Subperm

/-! What join links and tokens are worth: each link is consumed once and in time, and a token is
known exactly while it is its agent's current one. -/

namespace Khala.LocalSecrets

open Js

variable {δ : Type} [DecidableEq δ]

/-! ## The tokens, told from what happened -/

/-- The current tokens of a channel's members. -/
abbrev Tokens (δ : Type) : Type := LocalUser → Option δ

/-- What a change does to the tokens of a channel. -/
def Change.apply : Change δ → Option (Tokens δ) → Option (Tokens δ)
  | .links, tokens => tokens
  | .token userId hash, tokens => tokens.map fun tokens => Function.update tokens userId hash
  | .gone, _ => none
  | .emptied, _ => some fun _ => none

/-- Who has which token, who had it when its channel was deleted, and which changes are in doubt. -/
structure Book (δ : Type) where
  tokens : Text → Option (Tokens δ)
  buried : δ → Agent → Prop
  /-- Changes of calls that failed or were cut off since the channel was last saved. -/
  doubtful : Text → List (Change δ)

def Book.empty : Book δ := ⟨fun _ => none, fun _ _ => False, fun _ => []⟩

/-- The change that a reopening found for a channel. -/
def lateFor (late : Map Text (Change δ)) (roomId : Text) : Change δ := (late.get roomId).getD .links

/-- The book after an event. -/
def Book.after (book : Book δ) : Event δ → Book δ
  -- A new channel has no tokens.
  | .created roomId =>
    { book with
      tokens := Function.update book.tokens roomId (some fun _ => none)
      doubtful := Function.update book.doubtful roomId [] }
  | .saved roomId change =>
    { book with
      -- What was answered is certain, so other changes are no longer in doubt, unless they delete.
      tokens := Function.update book.tokens roomId (change.apply (book.tokens roomId))
      doubtful := Function.update book.doubtful roomId ((book.doubtful roomId).filter (· = .gone)) }
  -- The change may be on disk or not.
  | .failed roomId change =>
    { book with doubtful := Function.update book.doubtful roomId (change :: book.doubtful roomId) }
  | .deleted roomId =>
    { tokens := Function.update book.tokens roomId none
      -- Tokens of the channel are remembered as those of a deleted one.
      buried := fun hash agent => book.buried hash agent
        ∨ (agent.roomId = roomId ∧ (book.tokens roomId).bind (· agent.userId) = some hash)
      doubtful := Function.update book.doubtful roomId [] }
  | .reopened late =>
    -- What was in doubt has become certain, and the buried tokens are forgotten.
    { tokens := fun roomId => (lateFor late roomId).apply (book.tokens roomId)
      buried := fun _ _ => False
      doubtful := fun _ => [] }
  | _ => book

/-- The book of a log. -/
def bookOf (log : List (Event δ)) : Book δ := log.foldl Book.after .empty

/-- More events are written into the book that there was. -/
theorem bookOf_append (log events : List (Event δ)) :
    bookOf (log ++ events) = events.foldl Book.after (bookOf log) :=
  List.foldl_append ..

/-- The token with this hash is the agent's current one in a live channel, or was so when its
channel was deleted. -/
def Book.Knows (book : Book δ) (hash : δ) (agent : Agent) : Prop :=
  (book.tokens agent.roomId).bind (· agent.userId) = some hash ∨ book.buried hash agent

/-- The link that an event consumes. -/
def Event.consumedLink : Event δ → Option Nat
  | .consumed number _ => some number
  | _ => none

/-- The link that an event makes. -/
def Event.mintedLink : Event δ → Option Nat
  | .minting number _ _ _ => some number
  | _ => none

/-! ## Memory and the directories -/

/-- The tokens that a channel's secrets hold. -/
def ChannelSecrets.tokens (secrets : ChannelSecrets δ) : Tokens δ := fun userId =>
  (secrets.members.get userId).map (·.tokenSha256)

/-- Secrets whose links are where they were made, and are consumed if they were, and that can be
read again. -/
structure Good (log : List (Event δ)) (roomId : Text) (secrets : ChannelSecrets δ) : Prop where
  readable : secrets.readable = true
  links : ∀ hash link, secrets.links.get hash = some link →
    .minting link.number roomId hash link.expiresAt ∈ log
      ∧ (link.number ∈ log.filterMap Event.consumedLink → link.consumedAt ≠ none)

/-- What the running task is about to do. -/
inductive Fits (log : List (Event δ)) (store : Store δ) : Running δ → Prop
  /-- The channel to be created is not there yet. -/
  | create {roomId : Text} (channel : store.channels.get roomId = none)
    (dir : store.disk.get roomId = none) :
      Fits log store (.create roomId)
  /-- What is saved has changed by that one change, and a link that it consumes was made, in time
  and not consumed. -/
  | save {roomId : Text} {before secrets : ChannelSecrets δ} {change : Change δ}
    {consumes : Option (Nat × Int)}
      (found : store.channels.get roomId = some before) (good : Good log roomId secrets)
      (changed : some secrets.tokens = change.apply (some before.tokens))
      (kind : change ≠ .gone ∧ change ≠ .emptied)
      (consumption : ∀ number at_, consumes = some (number, at_) → ∃ hash expiresAt,
        .minting number roomId hash expiresAt ∈ log ∧ at_ < expiresAt
          ∧ number ∉ log.filterMap Event.consumedLink
          ∧ ∃ link, secrets.links.get hash = some link ∧ link.number = number
          ∧ link.consumedAt ≠ none) :
      Fits log store (.save roomId secrets change consumes)
  /-- The channel to be removed is there. -/
  | remove {roomId : Text} {secrets : ChannelSecrets δ}
    (found : store.channels.get roomId = some secrets) :
      Fits log store (.remove roomId)

/-- What holds of the store and the log at all times. -/
structure Kept (log : List (Event δ)) (store : Store δ) : Prop where
  /-- What is in memory is what the answers tell. -/
  tokens : ∀ roomId, (store.channels.get roomId).map ChannelSecrets.tokens
    = (bookOf log).tokens roomId
  buried : ∀ hash agent, store.deletedAgentTokens.get hash = some agent →
    (bookOf log).buried hash agent
  known : ∀ hash agent, (bookOf log).buried hash agent →
    (store.deletedAgentTokens.get hash).isSome = true
  /-- What would be opened from a directory differs from memory by the late change. -/
  disk : ∀ roomId, ((store.disk.get roomId).bind Dir.open_).map ChannelSecrets.tokens
    = ((store.late.get roomId).getD .links).apply ((bookOf log).tokens roomId)
  late : ∀ roomId change, store.late.get roomId = some change →
    change ∈ (bookOf log).doubtful roomId
  memory : ∀ roomId secrets, store.channels.get roomId = some secrets → Good log roomId secrets
  stored : ∀ roomId dir secrets, store.disk.get roomId = some dir → dir.secrets = some secrets →
    Good log roomId secrets
  running : ∀ running, store.running = some running → Fits log store running
  /-- The numbers of links are those given out. -/
  made : ∀ number roomId hash expiresAt, .minting number roomId hash expiresAt ∈ log →
    number < store.made
  spent : ∀ number ∈ log.filterMap Event.consumedLink, number < store.made
  numbers : (log.filterMap Event.mintedLink).Nodup

/-! ## The answers -/

/-- The agent that is found has the hash, or was found before. -/
private theorem lastWithHash_some {hash : δ} {agents : List (δ × Agent)} {found : Option Agent}
    {agent : Agent} (answer : lastWithHash hash agents found = some agent) :
    (hash, agent) ∈ agents ∨ found = some agent := by
  induction agents generalizing found with
  | nil => exact .inr answer
  | cons first rest ih =>
    rw [lastWithHash, List.foldl_cons] at answer
    rcases ih answer with inside | taken
    · exact .inl (List.mem_cons_of_mem _ inside)
    · split at taken
      · rename_i same
        cases taken
        exact .inl (by rw [← same]; exact List.mem_cons_self)
      · exact .inr taken

/-- When no agent is found, none has the hash. -/
private theorem lastWithHash_none {hash : δ} {agents : List (δ × Agent)} {found : Option Agent}
    (answer : lastWithHash hash agents found = none) :
    found = none ∧ ∀ agent, (hash, agent) ∉ agents := by
  -- The induction is on the agents, and a later one would be found instead.
  induction agents generalizing found with
  | nil => exact ⟨answer, fun _ => List.not_mem_nil⟩
  | cons first rest ih =>
    rw [lastWithHash, List.foldl_cons] at answer
    obtain ⟨taken, nowhere⟩ := ih answer
    -- Nothing was found from here on, so the first one does not have the hash.
    split at taken
    · cases taken
    · rename_i differs
      refine ⟨taken, fun agent inside => ?_⟩
      rcases List.mem_cons.mp inside with same | later
      · exact differs (by rw [← same])
      · exact nowhere agent later

omit [DecidableEq δ] in
/-- The agents of the channels are those with a token, the owners left out. -/
private theorem mem_channelAgents {channels : Map Text (ChannelSecrets δ)} {hash : δ}
    {agent : Agent} :
    (hash, agent) ∈ channelAgents channels.entries ↔
      agent.userId ≠ .owner ∧ ((channels.get agent.roomId).map ChannelSecrets.tokens).bind
        (· agent.userId) = some hash := by
  -- The list has the members of each channel, without the owner.
  rw [channelAgents, List.mem_flatMap]
  constructor
  · rintro ⟨⟨roomId, secrets⟩, channel, inside⟩
    obtain ⟨⟨userId, secret⟩, member, same⟩ := List.mem_map.mp inside
    obtain ⟨found, agents⟩ := List.mem_filter.mp member
    cases same
    refine ⟨by simpa using agents, ?_⟩
    rw [Map.get_eq_some.mpr channel]
    simp [ChannelSecrets.tokens, Map.get_eq_some.mpr found]
  -- The other way round, the channel and the member are found by their keys.
  · rintro ⟨agents, has⟩
    cases found : channels.get agent.roomId with
    | none =>
      rw [found] at has
      cases has
    | some secrets =>
      rw [found, Option.map_some, Option.bind_some, ChannelSecrets.tokens, Option.map_eq_some_iff]
        at has
      obtain ⟨secret, member, rfl⟩ := has
      refine ⟨(agent.roomId, secrets), Map.get_eq_some.mp found,
        List.mem_map.mpr ⟨(agent.userId, secret), ?_, rfl⟩⟩
      exact List.mem_filter.mpr ⟨Map.get_eq_some.mp member, by simpa using agents⟩

omit [DecidableEq δ] in
/-- Readable secrets hold no secret of the owner. -/
private theorem tokens_owner {secrets : ChannelSecrets δ} (readable : secrets.readable = true) :
    secrets.tokens .owner = none := by
  rw [ChannelSecrets.tokens, Option.map_eq_none_iff]
  cases found : secrets.members.get .owner with
  | none => rfl
  | some secret =>
    rw [ChannelSecrets.readable, Bool.and_eq_true] at readable
    have := List.all_eq_true.mp readable.2 _ (Map.get_eq_some.mp found)
    simp at this

/-- Whoever asks hears of an agent exactly when the book knows the hash. -/
theorem Kept.answers {log : List (Event δ)} {store : Store δ} (kept : Kept log store) (hash : δ) :
    (∀ agent, store.agentForToken hash = some agent → (bookOf log).Knows hash agent)
    ∧ (store.agentForToken hash = none → ∀ agent, ¬ (bookOf log).Knows hash agent) := by
  constructor
  -- What is found is a member of a channel, or the last agent buried with the hash.
  · intro agent answer
    rcases lastWithHash_some answer with live | deleted
    · rw [mem_channelAgents, kept.tokens] at live
      exact .inl live.2
    · rcases lastWithHash_some deleted with buried | nothing
      · exact .inr (kept.buried hash agent (Map.get_eq_some.mpr buried))
      · cases nothing
  -- Where nothing is found, a token that lives would stand on a member, and that is no owner.
  · intro answer agent knows
    obtain ⟨deleted, nowhere⟩ := lastWithHash_none answer
    obtain ⟨-, unburied⟩ := lastWithHash_none deleted
    rcases knows with live | buried
    · refine nowhere agent (mem_channelAgents.mpr ⟨?_, by rw [kept.tokens]; exact live⟩)
      intro owner
      rw [owner, ← kept.tokens] at live
      cases found : store.channels.get agent.roomId with
      | none =>
        rw [found] at live
        cases live
      | some secrets =>
        rw [found, Option.map_some, Option.bind_some,
          tokens_owner (kept.memory _ _ found).readable] at live
        cases live
    · obtain ⟨other, found⟩ := Option.isSome_iff_exists.mp (kept.known hash agent buried)
      exact unburied other (Map.get_eq_some.mp found)

/-! ## Logs that grow -/

variable {log events : List (Event δ)} {store after : Store δ} {roomId : Text}
    {secrets : ChannelSecrets δ}

/-- Secrets are read when all their times have four-digit years and the owner is no member. -/
theorem ChannelSecrets.readable_iff : secrets.readable = true ↔
    (∀ hash link, secrets.links.get hash = some link →
      fourDigitYear link.expiresAt = true ∧ ∀ time, link.consumedAt = some time →
      fourDigitYear time = true)
    ∧ secrets.members.get .owner = none := by
  -- Both lists are checked entry by entry, and each entry is found by its key.
  rw [ChannelSecrets.readable, Bool.and_eq_true, List.all_eq_true, List.all_eq_true]
  constructor
  · rintro ⟨links, members⟩
    refine ⟨fun hash link found => ?_, ?_⟩
    · have := links _ (Map.get_eq_some.mp found)
      simp only [Bool.and_eq_true, Option.all_eq_true] at this
      exact this
    · cases found : secrets.members.get .owner with
      | none => rfl
      | some secret => simpa using members _ (Map.get_eq_some.mp found)
  · rintro ⟨links, members⟩
    refine ⟨fun entry inside => ?_, fun entry inside => ?_⟩
    · simp only [Bool.and_eq_true, Option.all_eq_true]
      exact links entry.1 entry.2 (Map.get_eq_some.mpr inside)
    · rw [decide_eq_true_eq]
      intro owner
      rw [← owner, Map.get_eq_some.mpr inside] at members
      cases members

/-- Nothing is consumed, so good secrets stay good. -/
theorem Good.append (good : Good log roomId secrets)
    (quiet : events.filterMap Event.consumedLink = []) :
    Good (log ++ events) roomId secrets where
  readable := good.readable
  links := by
    intro hash link found
    obtain ⟨minted, consumed⟩ := good.links hash link found
    rw [List.filterMap_append, quiet, List.append_nil]
    exact ⟨List.mem_append_left _ minted, consumed⟩

/-- Empty secrets are good. -/
theorem good_empty (log : List (Event δ)) (roomId : Text) : Good log roomId emptySecrets :=
  ⟨rfl, fun _ _ found => by cases found⟩

/-- A running task still fits when nothing it looks at has changed. -/
theorem Fits.append {running : Running δ} (fits : Fits log store running)
    (quiet : events.filterMap Event.consumedLink = []) (channels : after.channels = store.channels)
    (disk : after.disk = store.disk) : Fits (log ++ events) after running := by
  cases fits with
  | create channel dir => exact .create (by rw [channels]; exact channel) (by rw [disk]; exact dir)
  | remove found => exact .remove (by rw [channels]; exact found)
  | save found good changed kind consumption =>
    refine .save (by rw [channels]; exact found) (good.append quiet) changed kind
      fun number at_ consumes => ?_
    obtain ⟨hash, expiresAt, minted, before, fresh, consumed⟩ := consumption number at_ consumes
    refine ⟨hash, expiresAt, List.mem_append_left _ minted, before, ?_, consumed⟩
    rwa [List.filterMap_append, quiet, List.append_nil]

/-- What runs does not see the queue. -/
theorem Fits.elsewhere {running : Running δ} (fits : Fits log store running)
    (channels : after.channels = store.channels) (disk : after.disk = store.disk) :
    Fits log after running := by
  have moved : Fits (log ++ []) after running := fits.append rfl channels disk
  rwa [List.append_nil] at moved

omit [DecidableEq δ] in
/-- Two events that make one link are one event. -/
theorem minting_unique (numbers : (log.filterMap Event.mintedLink).Nodup) {one two : Event δ}
    (first : one ∈ log) (second : two ∈ log) {number : Nat} (mints : one.mintedLink = some number)
    (mints' : two.mintedLink = some number) :
    one = two := by
  -- The induction is on the log: the first event mints this link or does not.
  induction log with
  | nil => cases first
  | cons event rest ih =>
    have inside : ∀ {other : Event δ}, other ∈ rest → other.mintedLink = some number →
      number ∈ rest.filterMap Event.mintedLink :=
      fun found is => List.mem_filterMap.mpr ⟨_, found, is⟩
    cases minted : event.mintedLink with
    | none =>
      rw [List.filterMap_cons_none minted] at numbers
      have apart : ∀ {other : Event δ}, other.mintedLink = some number → other ≠ event := by
        rintro other is rfl
        rw [minted] at is
        cases is
      exact ih numbers ((List.mem_cons.mp first).resolve_left (apart mints))
        ((List.mem_cons.mp second).resolve_left (apart mints'))
    | some drawn =>
      rw [List.filterMap_cons_some minted, List.nodup_cons] at numbers
      -- Both are the first event, both come later, or the number would be minted twice.
      rcases List.mem_cons.mp first with here | later <;> rcases List.mem_cons.mp second
        with here' | later'
      · exact here.trans here'.symm
      · rw [here, minted] at mints
        cases mints
        exact absurd (inside later' mints') numbers.1
      · rw [here', minted] at mints'
        cases mints'
        exact absurd (inside later mints) numbers.1
      · exact ih numbers.2 later later'

/-- A step that changes neither memory nor the directories, and tells nothing of them. -/
theorem Kept.same (kept : Kept log store) (channels : after.channels = store.channels)
    (disk : after.disk = store.disk) (buried : after.deletedAgentTokens = store.deletedAgentTokens)
    (late : after.late = store.late) (made : store.made ≤ after.made)
    (book : bookOf (log ++ events) = bookOf log) (quiet : events.filterMap Event.consumedLink = [])
    (drawn : ∀ number roomId hash expiresAt, .minting number roomId hash expiresAt ∈ events →
      number < after.made)
    (numbers : ((log ++ events).filterMap Event.mintedLink).Nodup)
    (running : ∀ running, after.running = some running → Fits (log ++ events) after running) :
    Kept (log ++ events) after where
  -- Each part of the invariant reads what is the same on both sides.
  tokens := by rw [channels, book]; exact kept.tokens
  buried := by rw [buried, book]; exact kept.buried
  known := by rw [buried, book]; exact kept.known
  disk := by rw [disk, late, book]; exact kept.disk
  late := by rw [late, book]; exact kept.late
  memory := by
    rw [channels]
    exact fun roomId secrets found => (kept.memory roomId secrets found).append quiet
  stored := by
    rw [disk]
    exact fun roomId dir secrets found there =>
      (kept.stored roomId dir secrets found there).append quiet
  running := running
  made := by
    intro number roomId hash expiresAt inside
    rcases List.mem_append.mp inside with old | new
    · exact Nat.lt_of_lt_of_le (kept.made number roomId hash expiresAt old) made
    · exact drawn number roomId hash expiresAt new
  spent := by
    rw [List.filterMap_append, quiet, List.append_nil]
    exact fun number inside => Nat.lt_of_lt_of_le (kept.spent number inside) made
  numbers := numbers

/-- A step that tells nothing. -/
theorem Kept.silent (kept : Kept log store) (channels : after.channels = store.channels)
    (disk : after.disk = store.disk) (buried : after.deletedAgentTokens = store.deletedAgentTokens)
    (late : after.late = store.late) (made : after.made = store.made)
    (running : ∀ running, after.running = some running → Fits log after running) :
    Kept (log ++ []) after := by
  refine kept.same channels disk buried late (Nat.le_of_eq made.symm)
    (by rw [List.append_nil]) rfl (by simp)
    (by rw [List.append_nil]; exact kept.numbers) ?_
  rw [List.append_nil]
  exact running

/-! ## A task begins -/

variable {sha256 : Text → δ}

/-- The link that is found is in a channel, is not consumed and has not expired. -/
private theorem findLink_some {hash : δ} {now : Int} {channels : List (Text × ChannelSecrets δ)}
    {link : Link} (found : findLink hash now channels = some (roomId, secrets, link)) :
    (roomId, secrets) ∈ channels ∧ secrets.links.get hash = some link ∧ link.consumedAt = none
      ∧ now < link.expiresAt := by
  -- The channels are searched in order, and the first link that is open is taken.
  induction channels with
  | nil => cases found
  | cons channel rest ih =>
    obtain ⟨room, first⟩ := channel
    rw [findLink] at found
    split at found
    · rename_i candidate there
      split at found
      · rename_i open_
        cases found
        exact ⟨List.mem_cons_self, there, open_⟩
      · exact (ih found).imp (List.mem_cons_of_mem _) id
    · exact (ih found).imp (List.mem_cons_of_mem _) id

/-- Secrets with one link set are as good as the link. -/
private theorem Good.setLink (good : Good log roomId secrets) {hash : δ} {link : Link}
    (dated : fourDigitYear link.expiresAt = true ∧ ∀ time, link.consumedAt = some time →
      fourDigitYear time = true)
    (minted : .minting link.number roomId hash link.expiresAt ∈ log)
    (consumed : link.number ∈ log.filterMap Event.consumedLink → link.consumedAt ≠ none) :
    Good log roomId { secrets with links := secrets.links.set hash link } where
  readable := by
    -- The link that is set is well dated, and the others are as they were.
    obtain ⟨links, members⟩ := ChannelSecrets.readable_iff.mp good.readable
    refine ChannelSecrets.readable_iff.mpr ⟨fun other link' found => ?_, members⟩
    rw [Map.get_set] at found
    split at found
    · cases found
      exact dated
    · exact links other link' found
  links := by
    intro other link' found
    -- It was minted, and the mark says so where it was consumed.
    rw [Map.get_set] at found
    split at found
    · rename_i same
      cases found
      rw [same]
      exact ⟨minted, consumed⟩
    · exact good.links other link' found

/-- The members after a token was set or cleared. -/
private theorem tokens_nextMembers (good : secrets.readable = true) (userId : LocalUser)
    (tokenSha256 sessionKey : Option δ) :
    ChannelSecrets.readable { secrets with
      members := nextMembers secrets.members userId tokenSha256 sessionKey } = true
    ∧ some (ChannelSecrets.tokens { secrets with
      members := nextMembers secrets.members userId tokenSha256 sessionKey })
      = (if userId = .owner then Change.links else .token userId tokenSha256).apply
        (some secrets.tokens) := by
  obtain ⟨links, members⟩ := ChannelSecrets.readable_iff.mp good
  rw [ChannelSecrets.readable_iff]
  by_cases owner : userId = .owner
  · subst owner
    -- The owner has no token to set or to clear.
    have same : ∀ user, (nextMembers secrets.members .owner tokenSha256 sessionKey).get user
      = secrets.members.get user := by
      intro user
      unfold nextMembers
      cases tokenSha256 with
      | none =>
        simp only [Map.get_delete]
        split
        · rename_i is
          rw [is, members]
        · rfl
      | some token => rfl
    refine ⟨⟨links, (same .owner).trans members⟩, ?_⟩
    rw [if_pos rfl, Change.apply, Option.some.injEq]
    funext user
    rw [ChannelSecrets.tokens, ChannelSecrets.tokens, same]
  · rw [if_neg owner, Change.apply, Option.map_some, Option.some.injEq]
    cases tokenSha256 with
    | none =>
      refine ⟨⟨links, ?_⟩, ?_⟩
      · simp only [nextMembers, Map.get_delete, members, ite_self]
      · funext user
        rw [ChannelSecrets.tokens, Function.update_apply]
        simp only [nextMembers, Map.get_delete]
        split <;> rfl
    | some token =>
      refine ⟨⟨links, ?_⟩, ?_⟩
      · simp only [nextMembers, if_neg owner, Map.get_set, if_neg (Ne.symm owner), members]
      · funext user
        rw [ChannelSecrets.tokens, Function.update_apply]
        simp only [nextMembers, if_neg owner, Map.get_set]
        split <;> rfl

/-- Beginning a task keeps the invariant. -/
private theorem kept_begin (kept : Kept log store) {choice : Choice} {task : Task δ}
    (begun : store.beginTask sha256 choice task = some (after, events)) :
    Kept (log ++ events) after := by
  -- A task that ends at once changes nothing.
  have unchanged : Kept (log ++ []) store := kept.silent rfl rfl rfl rfl rfl kept.running
  cases task with
  -- A new channel: neither its entry nor its directory is there.
  | createChannel =>
    simp only [Store.beginTask, Option.ite_none_left_eq_some, Bool.or_eq_true, not_or,
      Option.some.injEq, Prod.mk.injEq,
      Bool.not_eq_true, Option.isSome_eq_false_iff, Option.isNone_iff_eq_none] at begun
    obtain ⟨⟨channel, dir⟩, rfl, rfl⟩ := begun
    refine kept.silent rfl rfl rfl rfl rfl fun running is => ?_
    cases is
    exact .create channel dir
  -- A link is minted under a fresh number, before its file is written.
  | mintLink roomId =>
    simp only [Store.beginTask] at begun
    split at begun
    · cases begun
      exact unchanged
    · rename_i secrets found
      cases begun
      -- The number is fresh, as all numbers drawn lie below the next one.
      have fresh : store.made ∉ log.filterMap Event.mintedLink := by
        intro inside
        obtain ⟨event, there, mints⟩ := List.mem_filterMap.mp inside
        cases event with
        | minting number roomId hash expiresAt =>
          cases mints
          exact Nat.lt_irrefl _ (kept.made _ _ _ _ there)
        | _ => cases mints
      refine kept.same rfl rfl rfl rfl (Nat.le_succ _) (by rw [bookOf_append]; rfl) rfl ?_ ?_
        fun running is => ?_
      · intro number room hash expiresAt inside
        rw [List.mem_singleton] at inside
        cases inside
        exact Nat.lt_succ_self _
      · rw [List.filterMap_append]
        exact List.nodup_append.mpr ⟨kept.numbers, List.nodup_singleton _,
          fun number old other new => by
          rw [List.mem_singleton.mp new]
          rintro rfl
          exact fresh old⟩
      · cases is
        -- With its link the channel is still good, as the mint stands on the log.
        have good :
          Good (log ++ [Event.minting store.made roomId (sha256 choice.token)
            (choice.now.ms + linkTtlMs)]) roomId secrets :=
          (kept.memory roomId secrets found).append rfl
        refine .save found (good.setLink ⟨choice.now.dated.2, fun _ is => by cases is⟩
          (List.mem_append_right _ (List.mem_singleton_self _)) fun inside =>
            ?_) rfl ⟨by simp, by simp⟩ fun _ _ is => by cases is
        rw [List.filterMap_append] at inside
        exact absurd (kept.spent _ (by simpa [Event.consumedLink] using inside)) (Nat.lt_irrefl _)
  -- A link is consumed only where one is found that is open.
  | consumeLink token =>
    simp only [Store.beginTask] at begun
    split at begun
    · cases begun
      exact unchanged
    · split at begun
      · cases begun
        exact unchanged
      · rename_i roomId secrets link found
        cases begun
        -- It is open and has not expired, and the mark of its use is what the save will write.
        obtain ⟨channel, there, unconsumed, before⟩ := findLink_some found
        have memory := Map.get_eq_some.mpr channel
        have good := kept.memory roomId secrets memory
        obtain ⟨minted, consumed⟩ := good.links _ link there
        obtain ⟨links, -⟩ := ChannelSecrets.readable_iff.mp good.readable
        refine kept.silent rfl rfl rfl rfl rfl fun running is => ?_
        cases is
        refine .save memory
          (good.setLink ⟨(links _ link there).1,
            fun _ is => by cases is; exact choice.later.dated.1⟩ minted
          fun _ => by simp) rfl ⟨by simp, by simp⟩ fun number at_ is => ?_
        cases is
        exact ⟨_, _, minted, before, fun inside => consumed inside unconsumed, _,
          Map.get_set_self _ _ _, rfl, by simp⟩
  -- A member gets a token, which changes the tokens of this channel alone.
  | setMemberToken roomId userId tokenSha256 sessionKey =>
    simp only [Store.beginTask] at begun
    split at begun
    · cases begun
      exact unchanged
    · rename_i secrets found
      cases begun
      have good := kept.memory roomId secrets found
      obtain ⟨readable, changed⟩ := tokens_nextMembers good.readable userId tokenSha256 sessionKey
      refine kept.silent rfl rfl rfl rfl rfl fun running is => ?_
      cases is
      refine .save found ⟨readable, good.links⟩ changed ?_ fun _ _ is => by cases is
      split <;> simp
  -- A channel is deleted only where it is there.
  | deleteChannel roomId =>
    simp only [Store.beginTask] at begun
    split at begun
    · rename_i there
      cases begun
      obtain ⟨secrets, found⟩ := Option.isSome_iff_exists.mp there
      refine kept.silent rfl rfl rfl rfl rfl fun running is => ?_
      cases is
      exact .remove found
    · cases begun
      exact unchanged

/-! ## A task ends -/

omit [DecidableEq δ] in
/-- What is opened from a directory with good secrets. -/
private theorem tokens_open {dir : Dir δ}
    (good : ∀ secrets, dir.secrets = some secrets → secrets.readable = true) :
    dir.open_.map ChannelSecrets.tokens
      = if dir.log then some ((dir.secrets.map ChannelSecrets.tokens).getD fun _ => none)
        else none := by
  unfold Dir.open_
  split
  · cases there : dir.secrets with
    | none => rfl
    | some secrets => simp [good secrets there]
  · rfl

/-- That an agent may be gone is kept of what is doubtful. -/
private theorem doubtful_filter {book : List (Change δ)} (inside : Change.gone ∈ book) :
    Change.gone ∈ book.filter (· = .gone) :=
  List.mem_filter.mpr ⟨inside, by simp⟩

/-- A directory that holds a log opens as a channel. -/
private theorem Kept.log_of_late (kept : Kept log store) {dir : Dir δ}
    (found : store.channels.get roomId = some secrets) (there : store.disk.get roomId = some dir) :
    dir.log = false ↔ store.late.get roomId = some .gone := by
  have disk := kept.disk roomId
  rw [← kept.tokens, found, there, Option.bind_some,
    tokens_open fun other is => (kept.stored roomId dir other there is).readable] at disk
  -- The directory is as the book tells, up to the write that was lost.
  constructor
  · intro log
    rw [log, if_neg Bool.false_ne_true] at disk
    cases late : store.late.get roomId with
    | none =>
      rw [late] at disk
      cases disk
    | some change =>
      rw [late] at disk
      cases change with
      | gone => rfl
      | links => cases disk
      | token user hash => cases disk
      | emptied => cases disk
  -- Where the channel went, its log cannot be there any more.
  · intro late
    rw [late] at disk
    cases log : dir.log with
    | false => rfl
    | true =>
      rw [log, if_pos rfl] at disk
      cases disk

/-- Saving a channel's secrets. -/
private theorem kept_save (kept : Kept log store) {before : ChannelSecrets δ} {change : Change δ}
    {consumes : Option (Nat × Int)} {dir : Dir δ} (found : store.channels.get roomId = some before)
    (there : store.disk.get roomId = some dir) (good : Good log roomId secrets)
    (changed : some secrets.tokens = change.apply (some before.tokens))
    (consumption : ∀ number at_, consumes = some (number, at_) → ∃ hash expiresAt,
      .minting number roomId hash expiresAt ∈ log ∧ at_ < expiresAt
      ∧ number ∉ log.filterMap Event.consumedLink ∧ ∃ link, secrets.links.get hash = some link
      ∧ link.number = number ∧ link.consumedAt ≠ none) :
    Kept (log ++ (Event.saved roomId change :: (consumes.map fun consumed =>
      Event.consumed consumed.1 consumed.2).toList))
      { store with
        running := none
        disk := store.disk.set roomId { dir with secrets := some secrets }
        channels := store.channels.set roomId secrets
        late := lateAfterSave store.late roomId } := by
  set more := Event.saved roomId change :: (consumes.map fun consumed =>
    Event.consumed consumed.1 consumed.2).toList with events_
  have book : bookOf (log ++ more) = (bookOf log).after (.saved roomId change) := by
    rw [bookOf_append, events_]
    cases consumes <;> rfl
  have current :
    (bookOf log).tokens roomId = some before.tokens := by rw [← kept.tokens, found]; rfl
  have newTokens : (bookOf (log ++ more)).tokens = Function.update (bookOf log).tokens roomId
    (some secrets.tokens) := by
    rw [book, Book.after, current, changed]
  -- What is consumed now is what this save consumes.
  have consumedMore : ∀ number, number ∈ (log ++ more).filterMap Event.consumedLink →
      number ∈ log.filterMap Event.consumedLink ∨ ∃ at_, consumes = some (number, at_) := by
    intro number inside
    rw [List.filterMap_append, List.mem_append] at inside
    refine inside.imp id fun new => ?_
    rw [events_] at new
    cases consumes with
    | none => simp [Event.consumedLink] at new
    | some consumed =>
      simp only [Option.map_some, Option.toList_some, List.filterMap_cons, Event.consumedLink,
        List.filterMap_nil,
        List.mem_singleton] at new
      exact ⟨consumed.2, by rw [new]⟩
  -- A link that is consumed now is the one in the saved secrets.
  have saved : Good (log ++ more) roomId secrets := by
    refine ⟨good.readable, fun hash link inside => ?_⟩
    obtain ⟨minted, consumed⟩ := good.links hash link inside
    refine ⟨List.mem_append_left _ minted, fun number => ?_⟩
    rcases consumedMore _ number with old | ⟨at_, is⟩
    · exact consumed old
    · obtain ⟨hash', expiresAt, minted', -, -, link', inside', same, spent⟩ := consumption _ _ is
      have := minting_unique kept.numbers minted minted' rfl rfl
      simp only [Event.minting.injEq] at this
      obtain ⟨-, -, rfl, -⟩ := this
      rw [inside] at inside'
      cases inside'
      exact spent
  -- The other rooms have no link of those that are consumed now.
  have others : ∀ {other : Text} {secrets' : ChannelSecrets δ}, other ≠ roomId →
    Good log other secrets' →
      Good (log ++ more) other secrets' := by
    intro other secrets' apart good'
    refine ⟨good'.readable, fun hash link inside => ?_⟩
    obtain ⟨minted, consumed⟩ := good'.links hash link inside
    refine ⟨List.mem_append_left _ minted, fun number => ?_⟩
    rcases consumedMore _ number with old | ⟨at_, is⟩
    · exact consumed old
    · obtain ⟨hash', expiresAt, minted', -⟩ := consumption _ _ is
      have := minting_unique kept.numbers minted minted' rfl rfl
      simp only [Event.minting.injEq] at this
      exact absurd this.2.1 apart
  have unminted : more.filterMap Event.mintedLink = [] := by
    rw [events_]
    cases consumes <;> rfl
  refine ⟨?_, ?_, ?_, ?_, ?_, ?_, ?_, fun _ is => (by cases is), ?_, ?_, ?_⟩
  -- The tokens in memory are the book's, of this room as of all others.
  · intro room
    rw [newTokens, Function.update_apply, Map.get_set]
    split
    · rfl
    · exact kept.tokens room
  · rw [book]
    exact kept.buried
  · rw [book]
    exact kept.known
  -- On the disk is what was saved, unless something of it is still late.
  · intro room
    rw [newTokens, Function.update_apply]
    simp only [Map.get_set]
    by_cases same : room = roomId
    · subst same
      rw [if_pos rfl, if_pos rfl, Option.bind_some,
        tokens_open (by simp only [Option.some.injEq]; rintro _ rfl; exact good.readable),
          lateAfterSave]
      cases log_ : dir.log with
      | false =>
        have gone := (kept.log_of_late found there).mp log_
        rw [if_pos gone, gone]
        rfl
      | true =>
        have kept_ : store.late.get room ≠ some .gone := fun gone => by
          have := (kept.log_of_late found there).mpr gone
          rw [log_] at this
          cases this
        rw [if_neg kept_, Map.get_delete, if_pos rfl, if_pos rfl]
        rfl
    · rw [if_neg same, if_neg same, lateAfterSave]
      split
      · exact kept.disk room
      · rw [Map.get_delete, if_neg same]
        exact kept.disk room
  -- What was late in this room is so no longer, unless the directory is gone.
  · intro room change' late
    rw [book, Book.after]
    simp only [Function.update_apply]
    rw [lateAfterSave] at late
    by_cases same : room = roomId
    · subst same
      rw [if_pos rfl]
      split at late
      · rename_i gone
        rw [gone] at late
        cases late
        exact doubtful_filter (kept.late room .gone gone)
      · rw [Map.get_delete, if_pos rfl] at late
        cases late
    · rw [if_neg same]
      split at late
      · exact kept.late room change' late
      · rw [Map.get_delete, if_neg same] at late
        exact kept.late room change' late
  · intro room secrets' inside
    rw [Map.get_set] at inside
    split at inside
    · rename_i same
      cases inside
      rw [same]
      exact saved
    · rename_i apart
      exact others apart (kept.memory room secrets' inside)
  · intro room dir' secrets' inside has
    rw [Map.get_set] at inside
    split at inside
    · rename_i same
      cases inside
      cases has
      rw [same]
      exact saved
    · rename_i apart
      exact others apart (kept.stored room dir' secrets' inside has)
  · intro number room hash expiresAt inside
    refine kept.made number room hash expiresAt ((List.mem_append.mp inside).resolve_right
      fun new => ?_)
    have : number ∈ more.filterMap Event.mintedLink := List.mem_filterMap.mpr ⟨_, new, rfl⟩
    rw [unminted] at this
    cases this
  -- A number is consumed only after its link was minted.
  · intro number inside
    rcases consumedMore number inside with old | ⟨at_, is⟩
    · exact kept.spent number old
    · obtain ⟨hash, expiresAt, minted, -⟩ := consumption _ _ is
      exact kept.made _ _ _ _ minted
  · rw [List.filterMap_append, unminted, List.append_nil]
    exact kept.numbers

/-- A step that tells of neither a new link nor a consumed one leaves what was told of links. -/
private theorem Kept.linkless (kept : Kept log store) (made : after.made = store.made)
    (quiet : events.filterMap Event.consumedLink = [])
    (unminted : events.filterMap Event.mintedLink = []) :
    (∀ number roomId hash expiresAt, .minting number roomId hash expiresAt ∈ log ++ events →
      number < after.made)
    ∧ (∀ number ∈ (log ++ events).filterMap Event.consumedLink, number < after.made)
    ∧ ((log ++ events).filterMap Event.mintedLink).Nodup := by
  rw [made, List.filterMap_append, List.filterMap_append, quiet, unminted, List.append_nil,
    List.append_nil]
  refine ⟨fun number room hash expiresAt inside => ?_, kept.spent, kept.numbers⟩
  refine kept.made number room hash expiresAt ((List.mem_append.mp inside).resolve_right fun new =>
    ?_)
  have : number ∈ events.filterMap Event.mintedLink := List.mem_filterMap.mpr ⟨_, new, rfl⟩
  rw [unminted] at this
  cases this

/-- A channel that was made. -/
private theorem kept_create (kept : Kept log store) : Kept (log ++ [Event.created roomId])
    { store with
      running := none
      disk := store.disk.set roomId ⟨true, some emptySecrets⟩
      channels := store.channels.set roomId emptySecrets
      late := store.late.delete roomId } := by
  -- The book tells of one channel more, which has no token yet.
  have book : bookOf (log ++ [Event.created roomId]) = (bookOf log).after (.created roomId) := by
    rw [bookOf_append]; rfl
  obtain ⟨made, spent, numbers⟩ := @Kept.linkless δ _ log [.created roomId] store { store with
      running := none
      disk := store.disk.set roomId ⟨true, some emptySecrets⟩
      channels := store.channels.set roomId emptySecrets
      late := store.late.delete roomId } kept rfl rfl rfl
  refine ⟨?_, ?_, ?_, ?_, ?_, ?_, ?_, fun _ is => (by cases is), made, spent, numbers⟩
  -- Memory and book gain the same empty channel.
  · intro room
    rw [book, Book.after]
    simp only [Function.update_apply, Map.get_set]
    split
    · rfl
    · exact kept.tokens room
  · rw [book]
    exact kept.buried
  · rw [book]
    exact kept.known
  -- So do the disk and what is late about it.
  · intro room
    rw [book, Book.after]
    simp only [Function.update_apply, Map.get_set, Map.get_delete]
    split
    · rfl
    · exact kept.disk room
  -- Nothing is late about the new channel.
  · intro room change late
    rw [book, Book.after]
    simp only [Function.update_apply]
    simp only [Map.get_delete] at late
    split at late
    · cases late
    · rename_i apart
      rw [if_neg apart]
      exact kept.late room change late
  -- The new channel is good, and the others have seen one event more.
  · intro room secrets' inside
    rw [Map.get_set] at inside
    split at inside
    · cases inside
      exact good_empty _ room
    · exact (kept.memory room secrets' inside).append rfl
  · intro room dir' secrets' inside has
    rw [Map.get_set] at inside
    split at inside
    · cases inside
      cases has
      exact good_empty _ room
    · exact (kept.stored room dir' secrets' inside has).append rfl

/-- What is buried with a channel's members. -/
private theorem get_buryTokens (roomId : Text) (members : List (LocalUser × MemberSecret δ))
    (buried : Map δ Agent) (hash : δ) :
    (∀ agent, (buryTokens roomId members buried).get hash = some agent →
      buried.get hash = some agent ∨ ∃ userId secret, (userId, secret) ∈ members ∧ userId ≠ .owner
        ∧ secret.tokenSha256 = hash ∧ agent = ⟨roomId, userId⟩)
    ∧ (((buried.get hash).isSome = true ∨ ∃ userId secret, (userId, secret) ∈ members
      ∧ userId ≠ .owner
        ∧ secret.tokenSha256 = hash) →
          ((buryTokens roomId members buried).get hash).isSome = true) := by
  -- The induction is on the members, who are buried one after the other.
  induction members generalizing buried with
  | nil =>
    refine ⟨fun _ found => .inl found, ?_⟩
    rintro (there | ⟨_, _, inside, -⟩)
    · exact there
    · cases inside
  | cons entry rest ih =>
    obtain ⟨user, secret⟩ := entry
    rw [buryTokens, List.foldl_cons]
    -- The owner has no token to bury.
    by_cases owner : user = .owner
    · rw [if_pos owner]
      obtain ⟨only, all⟩ := ih buried
      refine ⟨fun agent found => (only agent found).imp id ?_, fun given => all (given.imp id ?_)⟩
      · rintro ⟨user', secret', inside, rest'⟩
        exact ⟨user', secret', List.mem_cons_of_mem _ inside, rest'⟩
      · rintro ⟨user', secret', inside, agent, same⟩
        rcases List.mem_cons.mp inside with is | inside
        · cases is
          exact absurd owner agent
        · exact ⟨user', secret', inside, agent, same⟩
    -- An agent is buried under the hash of the token, over what was there.
    · rw [if_neg owner]
      obtain ⟨only, all⟩ := ih (buried.set secret.tokenSha256 ⟨roomId, user⟩)
      refine ⟨fun agent found => ?_, fun given => all ?_⟩
      · rcases only agent found with old | ⟨user', secret', inside, rest'⟩
        · rw [Map.get_set] at old
          split at old
          · rename_i same
            cases old
            exact .inr ⟨user, secret, List.mem_cons_self, owner, same.symm, rfl⟩
          · exact .inl old
        · exact .inr ⟨user', secret', List.mem_cons_of_mem _ inside, rest'⟩
      · rw [Map.get_set]
        by_cases same : hash = secret.tokenSha256
        · exact .inl (by rw [if_pos same]; rfl)
        · rw [if_neg same]
          refine given.imp id ?_
          rintro ⟨user', secret', inside, agent, same'⟩
          rcases List.mem_cons.mp inside with is | inside
          · cases is
            exact absurd same'.symm same
          · exact ⟨user', secret', inside, agent, same'⟩

/-- A channel that was deleted. -/
private theorem kept_remove (kept : Kept log store)
    (found : store.channels.get roomId = some secrets) :
    Kept (log ++ [Event.deleted roomId])
      { store with
        running := none
        disk := store.disk.delete roomId
        channels := store.channels.delete roomId
        deletedAgentTokens := buryTokens roomId secrets.members.entries store.deletedAgentTokens
        late := store.late.delete roomId } := by
  -- The book tells that the channel is gone, and buries its tokens.
  have book : bookOf (log ++ [Event.deleted roomId]) = (bookOf log).after (.deleted roomId) := by
    rw [bookOf_append]; rfl
  obtain ⟨made, spent, numbers⟩ := @Kept.linkless δ _ log [.deleted roomId] store { store with
        running := none
        disk := store.disk.delete roomId
        channels := store.channels.delete roomId
        deletedAgentTokens := buryTokens roomId secrets.members.entries store.deletedAgentTokens
        late := store.late.delete roomId } kept rfl rfl rfl
  have current :
    (bookOf log).tokens roomId = some secrets.tokens := by rw [← kept.tokens, found]; rfl
  have readable := (kept.memory roomId secrets found).readable
  refine ⟨?_, ?_, ?_, ?_, ?_, ?_, ?_, fun _ is => (by cases is), made, spent, numbers⟩
  -- The channel leaves memory and book together.
  · intro room
    rw [book, Book.after]
    simp only [Function.update_apply, Map.get_delete]
    split
    · rfl
    · exact kept.tokens room
  -- What is buried was so before, or was a token of the channel.
  · intro hash agent there
    rw [book, Book.after]
    rcases (get_buryTokens roomId secrets.members.entries store.deletedAgentTokens hash).1
      agent there with
      old | ⟨userId, secret, inside, -, same, rfl⟩
    · exact .inl (kept.buried hash agent old)
    · refine .inr ⟨rfl, ?_⟩
      rw [current, Option.bind_some, ChannelSecrets.tokens, Map.get_eq_some.mpr inside,
        Option.map_some, same]
  -- And each of these is buried now, as its member is no owner.
  · intro hash agent there
    rw [book, Book.after] at there
    refine (get_buryTokens roomId secrets.members.entries store.deletedAgentTokens hash).2 ?_
    rcases there with old | ⟨-, has⟩
    · exact .inl (kept.known hash agent old)
    · rw [current, Option.bind_some] at has
      have agent_ : agent.userId ≠ .owner := by
        intro owner
        rw [owner, tokens_owner readable] at has
        cases has
      rw [ChannelSecrets.tokens, Option.map_eq_some_iff] at has
      obtain ⟨secret, member, same⟩ := has
      exact .inr ⟨agent.userId, secret, Map.get_eq_some.mp member, agent_, same⟩
  -- The directory is gone, as the book tells.
  · intro room
    rw [book, Book.after]
    simp only [Function.update_apply, Map.get_delete]
    split
    · rfl
    · exact kept.disk room
  -- Nothing is late about a channel that is gone.
  · intro room change late
    rw [book, Book.after]
    simp only [Function.update_apply]
    simp only [Map.get_delete] at late
    split at late
    · cases late
    · rename_i apart
      rw [if_neg apart]
      exact kept.late room change late
  · intro room secrets' inside
    simp only [Map.get_delete] at inside
    split at inside
    · cases inside
    · exact (kept.memory room secrets' inside).append rfl
  · intro room dir' secrets' inside has
    simp only [Map.get_delete] at inside
    split at inside
    · cases inside
    · exact (kept.stored room dir' secrets' inside has).append rfl

/-- Finishing a task keeps the invariant. -/
private theorem kept_finish (kept : Kept log store) {running : Running δ}
    (fits : Fits log store running) (finished : store.finishTask running = some (after, events)) :
    Kept (log ++ events) after := by
  -- By the task that was running: each has its own event.
  cases fits with
  | create channel dir =>
    cases finished
    exact kept_create kept
  | save found good changed kind consumption =>
    rw [Store.finishTask, Option.map_eq_some_iff] at finished
    obtain ⟨dir, there, is⟩ := finished
    cases is
    exact kept_save kept found there good changed consumption
  | remove found =>
    rw [Store.finishTask, Option.map_eq_some_iff] at finished
    obtain ⟨secrets, there, is⟩ := finished
    cases is
    exact kept_remove kept there

/-! ## A task fails -/

/-- A failure that leaves the directory of one channel as it may. -/
private theorem kept_failed (kept : Kept log store) {change : Change δ} {disk : Map Text (Dir δ)}
    {late : Map Text (Change δ)}
    (others : ∀ room, room ≠ roomId → disk.get room = store.disk.get room
      ∧ late.get room = store.late.get room)
    (here : ((disk.get roomId).bind Dir.open_).map ChannelSecrets.tokens
      = ((late.get roomId).getD .links).apply ((bookOf log).tokens roomId))
    (told : late.get roomId = store.late.get roomId ∨ late.get roomId = some change)
    (good : ∀ dir secrets, disk.get roomId = some dir → dir.secrets = some secrets →
      Good log roomId secrets) :
    Kept (log ++ [Event.failed roomId change]) { store with running := none, disk, late } := by
  -- The book tells nothing new of memory, and what may be late on the disk.
  have book :
    bookOf (log ++ [Event.failed roomId change]) = (bookOf log).after (.failed roomId change) := by
    rw [bookOf_append]; rfl
  obtain ⟨made, spent, numbers⟩ := @Kept.linkless δ _ log [.failed roomId change] store
    { store with running := none, disk, late } kept rfl rfl rfl
  refine ⟨?_, ?_, ?_, ?_, ?_, ?_, ?_, fun _ is => (by cases is), made, spent, numbers⟩
  · rw [book]
    exact kept.tokens
  · rw [book]
    exact kept.buried
  · rw [book]
    exact kept.known
  -- On the disk the channel is as it was or as the lost write leaves it.
  · intro room
    rw [book]
    by_cases same : room = roomId
    · rw [same]
      exact here
    · obtain ⟨disk_, late_⟩ := others room same
      simp only [disk_, late_]
      exact kept.disk room
  -- What is late was so before, or is the write that failed.
  · intro room change' is
    rw [book, Book.after]
    simp only [Function.update_apply]
    by_cases same : room = roomId
    · subst same
      rw [if_pos rfl]
      rcases told with old | new
      · exact List.mem_cons_of_mem _ (kept.late room change' (old ▸ is))
      · rw [new] at is
        cases is
        exact List.mem_cons_self
    · rw [if_neg same]
      exact kept.late room change' ((others room same).2 ▸ is)
  · exact fun room secrets' inside => (kept.memory room secrets' inside).append rfl
  · intro room dir secrets' inside has
    by_cases same : room = roomId
    · subst same
      exact (good dir secrets' inside has).append rfl
    · exact (kept.stored room dir secrets' ((others room same).1 ▸ inside) has).append rfl

/-- A failure that leaves everything as it was. -/
private theorem kept_failed_nothing (kept : Kept log store) (roomId : Text) (change : Change δ) :
    Kept (log ++ [Event.failed roomId change]) { store with running := none } :=
  kept_failed kept (fun _ _ => ⟨rfl, rfl⟩) (kept.disk roomId) (.inl rfl) fun dir secrets =>
    kept.stored roomId dir secrets

/-- A task that fails keeps the invariant, whatever remains of it. -/
private theorem kept_fail (kept : Kept log store) {running : Running δ}
    (fits : Fits log store running) (remains : Remains) :
    Kept (log ++ (store.failTask remains running).2) (store.failTask remains running).1 := by
  -- By the task that failed, and by what it left on the disk.
  cases fits with
  | @create roomId channel dir =>
    have none_ : (bookOf log).tokens roomId = none := by rw [← kept.tokens, channel]; rfl
    rw [Store.failTask]
    split
    -- The directory was not even made.
    · exact kept_failed_nothing kept roomId .emptied
    -- The directory is there, and the book knows only that something may be late.
    · refine kept_failed kept (fun room apart => ?_) ?_ ?_ ?_
      · rw [Map.get_set_of_ne apart]
        refine ⟨rfl, ?_⟩
        split
        · rw [Map.get_set_of_ne apart]
        · rfl
      · rw [Map.get_set_self, Option.bind_some, tokens_open (by
          intro secrets is
          split at is
          · cases is
            rfl
          · cases is)]
        -- Without its log the directory does not count as a channel yet.
        cases log_ : remains.log with
        | false =>
          rw [if_neg Bool.false_ne_true, if_neg Bool.false_ne_true, none_]
          have disk := kept.disk roomId
          rw [dir, none_] at disk
          exact disk
        -- With its log it opens as an empty channel, whether its secrets were written or not.
        | true =>
          rw [if_pos rfl, if_pos rfl, Map.get_set_self]
          cases remains.secrets <;> rfl
      · split
        · exact .inr (Map.get_set_self _ _ _)
        · exact .inl rfl
      · intro dir' secrets' inside has
        rw [Map.get_set_self] at inside
        cases inside
        split at has
        · cases has
          exact good_empty _ _
        · cases has
  -- A save that failed may have left the new file in place of the old one.
  | @save roomId before secrets change consumes found good changed kind consumption =>
    have current :
      (bookOf log).tokens roomId = some before.tokens := by rw [← kept.tokens, found]; rfl
    rw [Store.failTask]
    split
    · rename_i dir there _
      refine kept_failed kept (fun room apart => ?_) ?_ ?_ ?_
      · rw [Map.get_set_of_ne apart, lateAfterFailure]
        refine ⟨rfl, ?_⟩
        split
        · rfl
        · rw [Map.get_set_of_ne apart]
      · rw [Map.get_set_self, Option.bind_some,
          tokens_open (by simp only [Option.some.injEq]; rintro _ rfl; exact good.readable),
            lateAfterFailure]
        -- A log that is gone stays gone, and nothing of the channel can open.
        cases log_ : dir.log with
        | false =>
          have gone := (kept.log_of_late found there).mp log_
          rw [if_pos gone, gone]
          rfl
        -- Otherwise the disk has what the save would have left, which the book calls late.
        | true =>
          have still : store.late.get roomId ≠ some .gone := fun gone => by
            have := (kept.log_of_late found there).mpr gone
            rw [log_] at this
            cases this
          rw [if_neg still, Map.get_set_self, if_pos rfl, current]
          exact changed
      · rw [lateAfterFailure]
        split
        · exact .inl rfl
        · exact .inr (Map.get_set_self _ _ _)
      · intro dir' secrets' inside has
        rw [Map.get_set_self] at inside
        cases inside
        cases has
        exact good
    · exact kept_failed_nothing kept roomId change
  -- A removal goes file by file, and may stop after any of them.
  | @remove roomId secrets found =>
    have current :
      (bookOf log).tokens roomId = some secrets.tokens := by rw [← kept.tokens, found]; rfl
    rw [Store.failTask]
    split
    · exact kept_failed_nothing kept roomId .gone
    · rename_i dir there
      have stored := fun secrets' => kept.stored roomId dir secrets' there
      -- All is gone but the answer.
      split
      · refine kept_failed kept (fun room apart => ?_) ?_ (.inr (Map.get_set_self _ _ _)) ?_
        · rw [Map.get_delete, if_neg apart, Map.get_set_of_ne apart]
          exact ⟨rfl, rfl⟩
        · rw [Map.get_delete, if_pos rfl, Map.get_set_self]
          rfl
        · intro dir' secrets' inside
          rw [Map.get_delete, if_pos rfl] at inside
          cases inside
      -- The log is gone, so the channel does not open any more.
      · split
        · refine kept_failed kept (fun room apart => ?_) ?_ (.inr (Map.get_set_self _ _ _)) ?_
          · rw [Map.get_set_of_ne apart, Map.get_set_of_ne apart]
            exact ⟨rfl, rfl⟩
          · rw [Map.get_set_self, Map.get_set_self]
            rfl
          · intro dir' secrets' inside has
            rw [Map.get_set_self] at inside
            cases inside
            split at has
            · exact stored secrets' has
            · cases has
        -- Only the secrets are gone: the channel opens with no tokens.
        · split
          · refine kept_failed kept (fun room apart => ?_) ?_ ?_ ?_
            · rw [Map.get_set_of_ne apart, lateAfterFailure]
              refine ⟨rfl, ?_⟩
              split
              · rfl
              · rw [Map.get_set_of_ne apart]
            · rw [Map.get_set_self, Option.bind_some, tokens_open (by simp), lateAfterFailure]
              cases log_ : dir.log with
              | false =>
                have gone := (kept.log_of_late found there).mp log_
                rw [if_pos gone, gone]
                rfl
              | true =>
                have still : store.late.get roomId ≠ some .gone := fun gone => by
                  have := (kept.log_of_late found there).mpr gone
                  rw [log_] at this
                  cases this
                rw [if_neg still, Map.get_set_self]
                rfl
            · rw [lateAfterFailure]
              split
              · exact .inl rfl
              · exact .inr (Map.get_set_self _ _ _)
            · intro dir' secrets' inside has
              rw [Map.get_set_self] at inside
              cases inside
              cases has
          · exact kept_failed_nothing kept roomId .gone

/-! ## The store is opened again -/

/-- A process that is cut off keeps the invariant. -/
private theorem kept_cutOff (kept : Kept log store) (remains : Remains) :
    Kept (log ++ (store.cutOff remains).2) (store.cutOff remains).1 := by
  rw [Store.cutOff]
  split
  · rename_i running is
    exact kept_fail kept (kept.running running is) remains
  · exact kept.silent rfl rfl rfl rfl rfl kept.running

omit [DecidableEq δ] in
/-- Every listed directory that opens is a channel. -/
private theorem get_foldl_open (disk : Map Text (Dir δ)) (order : List Text)
    (channels : Map Text (ChannelSecrets δ)) (room : Text) :
    (order.foldl (fun channels roomId =>
      match (disk.get roomId).bind Dir.open_ with
      | some secrets => channels.set roomId secrets
      | none => channels) channels).get room
    = if room ∈ order then ((disk.get room).bind Dir.open_).or (channels.get room)
      else channels.get room := by
  -- The induction is on the channels still to be opened.
  induction order generalizing channels with
  | nil => rfl
  | cons first rest ih =>
    rw [List.foldl_cons, ih]
    simp only [List.mem_cons]
    -- The channel itself is set by this step, if its directory opens.
    by_cases same : room = first
    · subst same
      rw [if_pos (Or.inl rfl)]
      cases opened : (disk.get room).bind Dir.open_ with
      | none => simp
      | some secrets => simp
    -- Another channel is left alone by it.
    · have apart : (match (disk.get first).bind Dir.open_ with
          | some secrets => channels.set first secrets
          | none => channels).get room = channels.get room := by
        split
        · exact Map.get_set_of_ne same _
        · rfl
      rw [apart]
      simp only [same, false_or]

omit [DecidableEq δ] in
/-- A channel that is open holds what is read of its directory. -/
private theorem get_openChannels {disk : Map Text (Dir δ)} {order : List Text}
    (all : order.Perm disk.keys) (room : Text) :
    (openChannels disk order).get room = (disk.get room).bind Dir.open_ := by
  refine (get_foldl_open disk order .empty room).trans ?_
  rw [Map.get_empty, Option.or_none]
  split
  · rfl
  · rename_i unlisted
    rw [all.mem_iff, Map.mem_keys, Option.not_isSome_iff_eq_none] at unlisted
    rw [unlisted, Option.bind_none]

/-- Opening the store again keeps the invariant. -/
private theorem kept_reopen (kept : Kept log store) {order : List Text}
    (all : order.Perm store.disk.keys) :
    Kept (log ++ [Event.reopened store.late])
      ⟨store.disk, openChannels store.disk order, .empty, [], none, store.made, .empty⟩ := by
  -- After a restart memory is what the disk holds.
  have book :
    bookOf (log ++ [Event.reopened store.late]) = (bookOf log).after (.reopened store.late) := by
    rw [bookOf_append]; rfl
  obtain ⟨made, spent, numbers⟩ := @Kept.linkless δ _ log [.reopened store.late] store
    ⟨store.disk, openChannels store.disk order, .empty, [], none, store.made,
      .empty⟩ kept rfl rfl rfl
  refine ⟨?_, ?_, ?_, ?_, ?_, ?_, ?_, fun _ is => (by cases is), made, spent, numbers⟩
  · intro room
    rw [book, get_openChannels all, Book.after]
    exact kept.disk room
  -- The buried tokens were in memory alone, and are forgotten.
  · intro hash agent there
    cases there
  · intro hash agent there
    rw [book, Book.after] at there
    exact there.elim
  · intro room
    rw [book, Book.after]
    exact kept.disk room
  · intro room change late
    cases late
  -- A channel that opened was read from its file, or has none.
  · intro room secrets inside
    rw [get_openChannels all, Option.bind_eq_some_iff] at inside
    obtain ⟨dir, there, opened⟩ := inside
    rw [Dir.open_] at opened
    split at opened
    · split at opened
      · rename_i stored has
        have good := kept.stored room dir stored there has
        rw [if_pos good.readable] at opened
        cases opened
        exact good.append rfl
      · cases opened
        exact good_empty _ room
    · cases opened
  · exact fun room dir secrets there has => (kept.stored room dir secrets there has).append rfl

/-! ## Steps and runs -/

/-- What an event says is true, given what happened before it. -/
def Event.Right (before : List (Event δ)) : Event δ → Prop
  | .consumed number at_ => number ∉ before.filterMap Event.consumedLink
      ∧ ∃ roomId hash expiresAt, .minting number roomId hash expiresAt ∈ before ∧ at_ < expiresAt
  | .asked hash answer => (∀ agent, answer = some agent → (bookOf before).Knows hash agent)
      ∧ (answer = none → ∀ agent, ¬ (bookOf before).Knows hash agent)
  | .reopened late => ∀ roomId change, late.get roomId = some change →
  change ∈ (bookOf before).doubtful roomId
  | _ => True

/-- Every event of a log is right. -/
def Told (log : List (Event δ)) : Prop :=
  ∀ before (event : Event δ) rest, log = before ++ event :: rest → event.Right before

/-- Nothing is told by no events. -/
theorem Told.nil : Told ([] : List (Event δ)) := fun before event rest is => by simp at is

/-- Events that are right behind what was told are told. -/
theorem Told.append (told : Told log)
    (more : ∀ before (event : Event δ) rest, events = before ++ event :: rest →
      event.Right (log ++ before)) :
    Told (log ++ events) := by
  intro before event rest is
  -- The event is one of those added, or stood on the log before.
  rcases List.append_eq_append_iff.mp is with ⟨between, rfl, here⟩ | ⟨between, here, there⟩
  · exact more between event rest here
  · cases between with
    | nil =>
      rw [List.append_nil] at here
      have := more [] event rest there.symm
      rwa [List.append_nil, here] at this
    | cons first between =>
      rw [List.cons_append, List.cons.injEq] at there
      obtain ⟨rfl, rfl⟩ := there
      exact told before event between here

/-- Steps that tell nothing of what could be wrong. -/
private theorem right_of_quiet (quiet : ∀ event ∈ events, ∀ before, event.Right before) :
    ∀ before (event : Event δ) rest, events = before ++ event :: rest →
      event.Right (log ++ before) :=
  fun _ event _ is =>
  quiet event (is ▸ List.mem_append_right _ List.mem_cons_self) _

/-- What beginning a task emits is right. -/
private theorem right_of_begin {choice : Choice} {task : Task δ}
    (begun : store.beginTask sha256 choice task = some (after, events)) :
    ∀ event ∈ events, ∀ before, event.Right before := by
  -- A task that begins mints a link at most.
  cases task with
  | createChannel =>
    simp only [Store.beginTask, Option.ite_none_left_eq_some, Option.some.injEq, Prod.mk.injEq]
      at begun
    obtain ⟨-, -, rfl⟩ := begun
    simp
  | mintLink roomId =>
    simp only [Store.beginTask] at begun
    split at begun <;> cases begun <;> simp [Event.Right]
  | consumeLink token =>
    simp only [Store.beginTask] at begun
    split at begun
    · cases begun
      simp
    · split at begun <;> cases begun <;> simp
  | setMemberToken roomId userId tokenSha256 sessionKey =>
    simp only [Store.beginTask] at begun
    split at begun <;> cases begun <;> simp
  | deleteChannel roomId =>
    simp only [Store.beginTask] at begun
    split at begun <;> cases begun <;> simp

/-- A failure emits nothing but itself. -/
private theorem right_of_fail (store : Store δ) (remains : Remains) (running : Running δ) :
    ∃ roomId change, (store.failTask remains running).2 = [.failed roomId change] := by
  -- A failure is one event of its own.
  cases running with
  | create roomId =>
    rw [Store.failTask]
    split <;> exact ⟨_, _, rfl⟩
  | save roomId secrets change consumes =>
    rw [Store.failTask]
    split <;> exact ⟨_, _, rfl⟩
  | remove roomId =>
    rw [Store.failTask]
    split
    · exact ⟨_, _, rfl⟩
    · split
      · exact ⟨_, _, rfl⟩
      · split
        · exact ⟨_, _, rfl⟩
        · split <;> exact ⟨_, _, rfl⟩

/-- What finishing a task emits is right. -/
private theorem right_of_finish {running : Running δ} (fits : Fits log store running)
    (finished : store.finishTask running = some (after, events)) :
    ∀ before (event : Event δ) rest, events = before ++ event :: rest →
      event.Right (log ++ before) := by
  -- Only a save that consumes a link has something to show.
  cases fits with
  | create channel dir =>
    cases finished
    exact right_of_quiet (by simp [Event.Right])
  | remove found =>
    rw [Store.finishTask, Option.map_eq_some_iff] at finished
    obtain ⟨secrets, there, is⟩ := finished
    cases is
    exact right_of_quiet (by simp [Event.Right])
  | @save roomId before secrets change consumes found good changed kind consumption =>
    rw [Store.finishTask, Option.map_eq_some_iff] at finished
    obtain ⟨dir, there, is⟩ := finished
    cases is
    cases consumes with
    | none => exact right_of_quiet (by simp [Event.Right])
    | some consumed =>
      -- The link was minted, still open, and not yet expired.
      obtain ⟨number, at_⟩ := consumed
      obtain ⟨hash, expiresAt, minted, inTime, fresh, -⟩ := consumption number at_ rfl
      intro earlier event rest is
      -- The save comes first, and the consumption after it.
      rcases List.cons_eq_append_iff.mp is with ⟨rfl, here⟩ | ⟨earlier', rfl, here⟩
      · rw [List.cons.injEq] at here
        rw [here.1]
        trivial
      · rw [Option.map_some, Option.toList_some] at here
        rcases List.cons_eq_append_iff.mp here with ⟨rfl, last⟩ | ⟨_, rfl, nothing⟩
        · rw [List.cons.injEq] at last
          rw [last.1]
          refine ⟨?_, roomId, hash, expiresAt, List.mem_append_left _ minted, inTime⟩
          rw [List.filterMap_append]
          simpa [Event.consumedLink] using fresh
        · simp at nothing

/-- One action keeps what holds, and what it tells is right. -/
theorem kept_step {action : Action δ} (kept : Kept log store) (told : Told log)
    (taken : store.step sha256 action = some (after, events)) :
    Kept (log ++ events) after ∧ Told (log ++ events) := by
  -- By the action: each has its lemma for the invariant and one for the events.
  cases action with
  | call task =>
    cases taken
    refine ⟨kept.silent rfl rfl rfl rfl rfl fun running is =>
      ?_, told.append (right_of_quiet (by simp))⟩
    exact (kept.running running is).elsewhere rfl rfl
  -- The task leaves the queue and begins.
  | begin choice =>
    rw [Store.step] at taken
    split at taken
    · rename_i task rest idle queued
      have shorter : Kept log { store with queue := rest } := by
        have alone : Kept (log ++ []) { store with queue := rest } :=
          kept.silent rfl rfl rfl rfl rfl fun running is =>
            (kept.running running is).elsewhere rfl rfl
        rwa [List.append_nil] at alone
      exact ⟨kept_begin shorter taken, told.append (right_of_quiet (right_of_begin taken))⟩
    · cases taken
  | finish =>
    rw [Store.step, Option.bind_eq_some_iff] at taken
    obtain ⟨running, is, finished⟩ := taken
    have fits := kept.running running is
    exact ⟨kept_finish kept fits finished, told.append (right_of_finish fits finished)⟩
  | fail remains =>
    rw [Store.step, Option.map_eq_some_iff] at taken
    obtain ⟨running, is, failed⟩ := taken
    have result := kept_fail kept (kept.running running is) remains
    obtain ⟨roomId, change, alone⟩ := right_of_fail store remains running
    rw [failed] at result alone
    refine ⟨result, told.append (right_of_quiet ?_)⟩
    rw [show events = _ from alone]
    simp [Event.Right]
  -- A question is answered from memory, which the book tells.
  | ask token =>
    cases taken
    refine ⟨?_, told.append fun before event rest is => ?_⟩
    · exact kept.same rfl rfl rfl rfl (Nat.le_refl _) (by rw [bookOf_append]; rfl) rfl (by simp)
        (by rw [List.filterMap_append]; exact (List.append_nil _).symm ▸ kept.numbers)
          fun running is =>
        (kept.running running is).append rfl rfl rfl
    · rcases List.cons_eq_append_iff.mp is with ⟨rfl, here⟩ | ⟨_, rfl, nothing⟩
      · rw [List.cons.injEq] at here
        rw [here.1, List.append_nil]
        exact kept.answers (sha256 token)
      · simp at nothing
  -- A reopening first fails what was running, and then reads the disk.
  | reopen remains order =>
    simp only [Store.step, Option.ite_none_right_eq_some, Option.some.injEq, Prod.mk.injEq] at taken
    obtain ⟨all, rfl, rfl⟩ := taken
    have left := kept_cutOff kept remains
    have quiet : ∀ event ∈ (store.cutOff remains).2, ∀ before, event.Right before := by
      rw [Store.cutOff]
      split
      · rename_i running is
        obtain ⟨roomId, change, alone⟩ := right_of_fail store remains running
        rw [alone]
        simp [Event.Right]
      · simp
    rw [← List.append_assoc]
    refine ⟨kept_reopen left all, (told.append (right_of_quiet quiet)).append
      fun before event rest is => ?_⟩
    rcases List.cons_eq_append_iff.mp is with ⟨rfl, here⟩ | ⟨_, rfl, nothing⟩
    · rw [List.cons.injEq] at here
      rw [here.1, List.append_nil, Event.Right]
      exact left.late
    · simp at nothing

/-- The empty store is kept. -/
theorem kept_empty : Kept ([] : List (Event δ)) .empty := by
  refine ⟨fun _ => rfl, ?_, ?_, fun _ => rfl, ?_, ?_, ?_, ?_, ?_, ?_, List.nodup_nil⟩
  · intro _ _ found
    cases found
  · exact fun _ _ there => there.elim
  · intro _ _ found
    cases found
  · intro _ _ found
    cases found
  · intro _ _ _ found
    cases found
  · intro _ found
    cases found
  · intro _ _ _ _ found
    cases found
  · intro _ found
    cases found

/-- Every run keeps the invariant, and all that it told is right. -/
theorem kept_run (run : Run sha256 log store) : Kept log store ∧ Told log := by
  induction run with
  | empty => exact ⟨kept_empty, .nil⟩
  | step before taken ih => exact kept_step ih.1 ih.2 taken

/-! ## Tokens that were replaced -/

/-- A call sets the token, though it may fail. -/
def Event.Sets (roomId : Text) (userId : LocalUser) (hash : δ) (event : Event δ) : Prop :=
  event = .saved roomId (.token userId (some hash))
    ∨ event = .failed roomId (.token userId (some hash))

/-- The token of a member, told from the book. -/
def Book.token (book : Book δ) (roomId : Text) (userId : LocalUser) : Option δ :=
  (book.tokens roomId).bind (· userId)

omit [DecidableEq δ] in
/-- A change gives a member the token it had, or the one it sets, or none. -/
private theorem token_of_apply {change : Change δ} {tokens : Option (Tokens δ)} {userId : LocalUser}
    {hash : δ} (has : (change.apply tokens).bind (· userId) = some hash) :
    tokens.bind (· userId) = some hash ∨ change = .token userId (some hash) := by
  -- Only a change of this member's token brings one.
  cases change with
  | links => exact .inl has
  | gone => cases has
  | emptied => cases has
  | token user value =>
    cases tokens with
    | none => cases has
    | some tokens =>
      rw [Change.apply, Option.map_some, Option.bind_some, Function.update_apply] at has
      split at has
      · rename_i same
        rw [same, has]
        exact .inr rfl
      · exact .inl has

/-- What an event makes of a member's token and of the changes in doubt. -/
private theorem token_after {book : Book δ} {event : Event δ} {before : List (Event δ)}
    (is : bookOf before = book) (right : event.Right before) {roomId : Text} {userId : LocalUser}
    {hash : δ} :
    ((book.after event).token roomId userId = some hash →
      book.token roomId userId = some hash ∨ event.Sets roomId userId hash
        ∨ Change.token userId (some hash) ∈ book.doubtful roomId)
    ∧ (Change.token userId (some hash) ∈ (book.after event).doubtful roomId →
      event.Sets roomId userId hash ∨ Change.token userId (some hash) ∈ book.doubtful roomId) := by
  subst is
  -- By the event: only saves, failures and reopenings touch what a token may be.
  cases event with
  | minting => exact ⟨.inl, .inr⟩
  | consumed => exact ⟨.inl, .inr⟩
  | asked => exact ⟨.inl, .inr⟩
  | created room =>
    simp only [Book.after, Book.token, Function.update_apply]
    by_cases same : roomId = room
    · simp [same]
    · simp only [if_neg same]
      exact ⟨.inl, .inr⟩
  | deleted room =>
    simp only [Book.after, Book.token, Function.update_apply]
    by_cases same : roomId = room
    · simp [same]
    · simp only [if_neg same]
      exact ⟨.inl, .inr⟩
  -- A failed save of this token leaves it in doubt.
  | failed room change =>
    simp only [Book.after, Function.update_apply]
    refine ⟨.inl, fun inside => ?_⟩
    split at inside
    · rename_i same
      subst same
      rcases List.mem_cons.mp inside with here | there
      · exact .inl (.inr (by rw [here]))
      · exact .inr there
    · exact .inr inside
  -- A save sets the token or keeps it.
  | saved room change =>
    simp only [Book.after, Book.token, Function.update_apply]
    by_cases same : roomId = room
    · subst same
      simp only [if_true]
      refine ⟨fun has => (token_of_apply has).imp id fun sets => .inl (.inl (by rw [sets])),
        fun inside => ?_⟩
      exact .inr (List.mem_filter.mp inside).1
    · simp only [if_neg same]
      exact ⟨.inl, .inr⟩
  -- After a reopening a late change may have taken hold, and it was in doubt.
  | reopened late =>
    refine ⟨fun has => (token_of_apply has).imp id fun found =>
      .inr ?_, fun inside => by cases inside⟩
    rw [lateFor] at found
    cases late_ : late.get roomId with
    | none =>
      rw [late_] at found
      cases found
    | some change =>
      rw [late_, Option.getD_some] at found
      rw [← found]
      exact right roomId change late_

/-- Once a token was replaced or cleared, no other is the member's current one before a call sets
it. -/
private theorem token_replaced {before : List (Event δ)} {userId : LocalUser} {current : Option δ}
    (later : List (Event δ))
    (told : Told (before ++ Event.saved roomId (.token userId current) :: later)) :
    (∀ hash, (bookOf (before ++ Event.saved roomId (.token userId current) :: later)).token roomId
      userId = some hash →
      current = some hash ∨ ∃ event ∈ later, event.Sets roomId userId hash)
    ∧ ∀ hash, Change.token userId (some hash) ∈
      (bookOf (before ++ Event.saved roomId (.token userId current) :: later)).doubtful roomId →
      ∃ event ∈ later, event.Sets roomId userId hash := by
  -- The induction takes the last event: it sets the token, or keeps what was true before.
  induction later using List.reverseRecOn with
  | nil =>
    rw [bookOf_append]
    simp only [List.foldl_cons, List.foldl_nil, Book.after, Book.token,
      Function.update_self, Change.apply]
    -- Right after the save the token is the one saved, and nothing is in doubt.
    refine ⟨fun hash has => .inl ?_, fun hash inside => ?_⟩
    · cases tokens : (bookOf before).tokens roomId with
      | none =>
        rw [tokens] at has
        cases has
      | some tokens' =>
        rw [tokens, Option.map_some, Option.bind_some, Function.update_self] at has
        exact has
    · simpa using (List.mem_filter.mp inside).2
  | append_singleton later event ih =>
    have longer : before ++ Event.saved roomId (.token userId current) :: (later ++ [event])
        = (before ++ Event.saved roomId (.token userId current) :: later) ++ [event] := by simp
    rw [longer] at told ⊢
    -- Without its last event the log tells the truth as well.
    have earlier : Told (before ++ Event.saved roomId (.token userId current) :: later) :=
      fun pre here rest is =>
      told pre here (rest ++ [event]) (by rw [is]; simp)
    obtain ⟨tokens, doubtful⟩ := ih earlier
    have right := told _ event [] rfl
    have book : bookOf ((before ++ Event.saved roomId (.token userId current) :: later) ++ [event])
        = (bookOf (before ++ Event.saved roomId (.token userId current) :: later)).after event := by
          rw [bookOf_append]; rfl
    have widen : ∀ {hash : δ}, (∃ event' ∈ later, event'.Sets roomId userId hash) →
        ∃ event' ∈ later ++ [event], event'.Sets roomId userId hash := fun ⟨event', inside, sets⟩ =>
      ⟨event', List.mem_append_left _ inside, sets⟩
    have last : ∀ {hash : δ}, event.Sets roomId userId hash → ∃ event' ∈ later ++ [event],
      event'.Sets roomId userId hash :=
      fun sets => ⟨event, List.mem_append_right _ (List.mem_singleton_self _), sets⟩
    rw [book]
    refine ⟨fun hash has => ?_, fun hash inside => ?_⟩
    · rcases (token_after rfl right).1 has with old | sets | doubt
      · exact (tokens hash old).imp id widen
      · exact .inr (last sets)
      · exact .inr (widen (doubtful hash doubt))
    · rcases (token_after rfl right).2 inside with sets | doubt
      · exact last sets
      · exact widen (doubtful hash doubt)

/-- Over any overlap of calls, failures and reopenings: a link is consumed at most once, and was
found before it expired (the call is answered later, when the change is saved); an agent is answered
exactly for its current token, or for one that was current when its channel was deleted; what a
reopening finds changed is a call's that failed or was cut off; and once a member's token was
replaced or cleared, an earlier one answers for it only when a call sets it again. -/
theorem links_and_tokens {log : List (Event δ)} {store : Store δ} (run : Run sha256 log store) :
    (∀ before number at_ rest, log = before ++ Event.consumed number at_ :: rest →
      number ∉ before.filterMap Event.consumedLink
        ∧ ∃ roomId hash expiresAt, .minting number roomId hash expiresAt ∈ before ∧ at_ < expiresAt)
    ∧ (∀ before hash answer rest, log = before ++ Event.asked hash answer :: rest →
      (∀ agent, answer = some agent → (bookOf before).Knows hash agent)
        ∧ (answer = none → ∀ agent, ¬ (bookOf before).Knows hash agent))
    ∧ (∀ before late rest, log = before ++ Event.reopened late :: rest →
      ∀ roomId change, late.get roomId = some change → change ∈ (bookOf before).doubtful roomId)
    ∧ ∀ before roomId userId current later hash rest,
      log = before ++ Event.saved roomId (.token userId current) ::
        (later ++ Event.asked hash (some ⟨roomId, userId⟩) :: rest) →
      current = some hash ∨ (∃ event ∈ later, event.Sets roomId userId hash)
        ∨ (bookOf (before ++ Event.saved roomId (.token userId current) :: later)).buried hash
          ⟨roomId, userId⟩ := by
  -- The first three parts are what a run tells at each event.
  have told := (kept_run run).2
  refine ⟨fun before number at_ rest is => told before _ rest is, fun before hash answer rest is =>
    told before _ rest is,
    fun before late rest is =>
      told before _ rest is, fun before roomId userId current later hash rest is => ?_⟩
  -- For the fourth, the log is cut before the question.
  have whole : log = (before ++ Event.saved roomId (.token userId current) :: later)
      ++ Event.asked hash (some ⟨roomId, userId⟩) :: rest := by
    rw [is]
    simp
  have asked : Event.Right _ (.asked hash (some ⟨roomId, userId⟩)) := told _ _ rest whole
  have earlier : Told (before ++ Event.saved roomId (.token userId current) :: later) :=
    fun pre here after_ same =>
    told pre here (after_ ++ Event.asked hash (some ⟨roomId, userId⟩) :: rest)
      (by rw [whole, same]; simp)
  -- The agent found lives or is buried, and a living token was set since the save.
  rcases asked.1 _ rfl with live | buried
  · rcases (token_replaced later earlier).1 hash live with same | sets
    · exact .inl same
    · exact .inr (.inl sets)
  · exact .inr (.inr buried)

/-- Actions in a row, and what is told of them. -/
def Store.steps (sha256 : Text → δ) (store : Store δ) :
    List (Action δ) → Option (List (Event δ) × Store δ)
  | [] => some ([], store)
  | action :: rest =>
    (store.step sha256 action).bind fun (after, events) =>
      (after.steps sha256 rest).map fun (more, last) => (events ++ more, last)

/-- Steps that are taken continue a run. -/
theorem run_steps {actions : List (Action δ)} (run : Run sha256 log store)
    (taken : store.steps sha256 actions = some (events, after)) :
    Run sha256 (log ++ events) after := by
  -- The induction is on the actions.
  induction actions generalizing log store events with
  | nil =>
    cases taken
    rwa [List.append_nil]
  | cons action rest ih =>
    rw [Store.steps, Option.bind_eq_some_iff] at taken
    obtain ⟨⟨next, first⟩, step, taken⟩ := taken
    rw [Option.map_eq_some_iff] at taken
    obtain ⟨⟨more, last⟩, others, is⟩ := taken
    cases is
    rw [← List.append_assoc]
    exact ih (.step run step) others

/-- The link's token in a run with one link. -/
private def linkToken : Text := List.replicate 43 97

private def aChoice : Choice := ⟨[1], linkToken, ⟨0, by decide⟩, ⟨1, by decide⟩⟩

/-- A channel is made, its link consumed, a token set and the store opened again. -/
private def joining : List (Action Text) :=
  [.call .createChannel, .begin aChoice, .finish, .call (.mintLink [1]), .begin aChoice, .finish,
    .call (.consumeLink linkToken),
    .begin aChoice, .finish, .call (.setMemberToken [1] (.agent 5) (some [7]) none),
      .begin aChoice, .finish,
    .reopen ⟨true, true, true⟩ [[1]], .ask [7]]

private def joined : List (Event Text) :=
  [.created [1], .minting 0 [1] linkToken 600000, .saved [1] .links, .saved [1] .links,
    .consumed 0 0,
    .saved [1] (.token (.agent 5) (some [7])), .reopened .empty]

/-- What the store tells when an agent joins by a link and asks with its token. -/
private theorem joined_told :
    (Store.empty.steps id joining).map Prod.fst
      = some (joined ++ [Event.asked [7] (some ⟨[1], .agent 5⟩)]) :=
  rfl

/-- In a run a link is consumed in time, and the agent that asks with its token after the store was
opened again is known. -/
theorem links_and_tokens_joined :
    ∃ store, Run id (joined ++ [Event.asked [7] (some ⟨[1], .agent 5⟩)]) store
      ∧ (∃ roomId hash expiresAt, .minting 0 roomId hash expiresAt ∈ joined.take 4 ∧ 0 < expiresAt)
      ∧ (bookOf joined).Knows [7] ⟨[1], .agent 5⟩ := by
  obtain ⟨⟨log, store⟩, taken, is⟩ := Option.map_eq_some_iff.mp joined_told
  have run : Run id (joined ++ [Event.asked [7] (some ⟨[1], .agent 5⟩)]) store := by
    have run := run_steps .empty taken
    rwa [List.nil_append, show log = _ from is] at run
  have told := links_and_tokens run
  exact ⟨store, run, (told.1 (joined.take 4) 0 0 _ rfl).2, (told.2.1 joined [7] _ [] rfl).1 _ rfl⟩

end Khala.LocalSecrets
