import Khala.Control.ChannelRecords

/-! Removing a human from a room: the record that outlives the removal, and what it means for
invites. -/

namespace Khala.Channels

open Js Concurrent

/-! ## The record -/

def validRemovals (record : RoomRemovals) : Bool :=
  record.v == 1 && isSafeInteger record.generation && decide (0 < record.generation)
    && record.owners.entries.all fun entry =>
      isSafeInteger entry.2.generation && decide (0 < entry.2.generation) && decide
        (entry.2.generation ≤ record.generation)

/-- The generation of a removal: one that is not complete is taken up again. -/
def removalGeneration (previous : Option RoomRemovals) (ownerId : OwnerId) : Nat :=
  match previous.bind fun record => record.owners.get ownerId with
  | some pending => if pending.complete then ((previous.map (·.generation)).getD 0) + 1
    else pending.generation
  | none => ((previous.map (·.generation)).getD 0) + 1

/-- `new Set(...)` of the agents listed so far and more. -/
def mergeAgents (listed more : List Text) : List Text := (listed ++ more).eraseDups

/-- The record after a removal is recorded. -/
def withRemoval (previous : Option RoomRemovals) (creatorOwnerId ownerId : OwnerId)
    (agents : List Text) (label : Text) :
    RoomRemovals :=
  let generation := removalGeneration previous ownerId
  let owners := (previous.map (·.owners)).getD .empty
  { v := 1
    creatorOwnerId := creatorOwnerId
    -- The generation of the room never falls.
    generation := max generation ((previous.map (·.generation)).getD 0)
    owners := owners.set ownerId
      { generation := generation
        label := label
        complete := false
        -- The agents of an earlier removal of this owner stay.
        agents := mergeAgents (((owners.get ownerId).map (·.agents)).getD []) agents } }

/-- The record after a removal is complete. -/
def withComplete (current : RoomRemovals) (ownerId : OwnerId) (entry : OwnerRemoval) :
    RoomRemovals :=
  { current with owners := current.owners.set ownerId { entry with complete := true } }

/-- What the removals of a room mean for an invite, and for the human who uses it. -/
def removalState (removals : RoomRemovals) (invite : InviteRecord) (ownerId : Option OwnerId) :
    RemovalState :=
  let generation := invite.removalGeneration.getD 0
  if (removals.owners.get invite.creatorOwnerId).any fun issuer =>
    generation < issuer.generation then .revoked
  else if (ownerId.bind fun ownerId => removals.owners.get ownerId).any fun target =>
      !target.complete || decide (generation < target.generation) || decide
        (invite.creatorOwnerId ≠ removals.creatorOwnerId) then
    .revoked
  else .allowed

/-! ## The programs -/

/-- The removals of a room; none when there are none, and nothing when they cannot be read. -/
def readRoomRemovals (roomId : RoomId) : ChannelProgram (Option (Option RoomRemovals)) := do
  match ← StoreProgram.read (T := channelSetting) (.removals roomId) with
  | .absent => return some none
  | .record _ (.removals value) => if validRemovals value then return some (some value) else return none
  | _ => return none

/-- Records the removal over what was read; tries again when somebody else was faster. -/
def recordOver (retry : ChannelProgram (Option RoomRemovals)) (roomId : RoomId)
    (creatorOwnerId ownerId : OwnerId) (agents : List Text) (label : Text) (expected : Option Nat)
    (previous : Option RoomRemovals) :
    ChannelProgram (Option RoomRemovals) := do
  let random ← StoreProgram.random
  match ← StoreProgram.compareAndSet (T := channelSetting)
    (.removals roomId) expected (.remove random)
    (.removals (withRemoval previous creatorOwnerId ownerId agents label)) with
  | .applied _ (.removals value) => return some value
  | .conflict _ => retry
  | _ => return none

/-- `recordRemoval`, with the attempts left; nothing when it is unavailable. -/
def recordRemoval (roomId : RoomId) (creatorOwnerId ownerId : OwnerId) (agents : List Text)
    (label : Text) :
    Nat → ChannelProgram (Option RoomRemovals)
  | 0 => return none
  | attempts + 1 => do
    match ← StoreProgram.read (T := channelSetting) (.removals roomId) with
    | .unavailable => return none
    -- The first removal of the room.
    | .absent =>
      recordOver (recordRemoval roomId creatorOwnerId ownerId agents label attempts)
        roomId creatorOwnerId ownerId agents label none none
    | .record revision (.removals previous) =>
      -- The removals of another creator stay as they are.
      if validRemovals previous = false ∨ previous.creatorOwnerId ≠ creatorOwnerId then return none
      else
        recordOver (recordRemoval roomId creatorOwnerId ownerId agents label attempts)
          roomId creatorOwnerId ownerId agents label (some revision) (some previous)
    | .record _ _ => return none

def inviteRemovalState (invite : InviteRecord) (ownerId : Option OwnerId) :
    ChannelProgram RemovalState :=
  do
  match ← readRoomRemovals invite.roomId with
  | none => return .unavailable
  | some none => return .allowed
  | some (some removals) => return removalState removals invite ownerId

/-- `completeRemoval`, with the attempts left. -/
def completeRemoval (roomId : RoomId) (ownerId : OwnerId) (generation : Nat) :
    Nat → ChannelProgram Bool
  | 0 => return false
  | attempts + 1 => do
    match ← StoreProgram.read (T := channelSetting) (.removals roomId) with
    | .record revision (.removals current) =>
      if validRemovals current = false then return false
      else match current.owners.get ownerId with
        | none => return false
        | some entry =>
          -- A later removal of this owner has taken over.
          if entry.generation ≠ generation then return false
          else if entry.complete then return true
          else
            let random ← StoreProgram.random
            match ← StoreProgram.compareAndSet (T := channelSetting) (.removals roomId)
              (some revision) (.complete random)
              (.removals (withComplete current ownerId entry)) with
            | .applied _ _ => return true
            -- Somebody else has written the removals, which are read again.
            | .conflict _ => completeRemoval roomId ownerId generation attempts
            | _ => return false
    | _ => return false

/-- Sets the flag over what was read. -/
def setOver (retry : ChannelProgram Bool) (roomId : RoomId) (userId : Text) (removed : Bool)
    (expected : Option Nat) :
    ChannelProgram Bool := do
  let random ← StoreProgram.random
  match ← StoreProgram.compareAndSet (T := channelSetting)
    (.agentRemoved roomId userId) expected (.agentRemoved random)
    (.agentRemoved removed) with
  | .applied _ _ => return true
  | .conflict _ => retry
  | _ => return false

/-- `setAgentRemoved`, with the attempts left. -/
def setAgentRemoved (roomId : RoomId) (userId : Text) (removed : Bool) : Nat → ChannelProgram Bool
  | 0 => return false
  | attempts + 1 => do
    match ← StoreProgram.read (T := channelSetting) (.agentRemoved roomId userId) with
    | .unavailable => return false
    | .absent =>
      -- An agent without a mark is not removed.
      if removed = false then return true
      else setOver (setAgentRemoved roomId userId removed attempts) roomId userId removed none
    | .record revision value =>
      -- The mark is as it is asked to be.
      if decide (value = .agentRemoved true) = removed then return true
      else setOver (setAgentRemoved roomId userId removed attempts) roomId userId removed (some revision)

/-! ## How the record goes on -/

/-- A later record of the same room: generations do not go back, and agents stay listed. -/
structure Follows (old new : RoomRemovals) : Prop where
  creator : new.creatorOwnerId = old.creatorOwnerId
  generation : old.generation ≤ new.generation
  owners : ∀ ownerId entry, old.owners.get ownerId = some entry → ∃ later,
    new.owners.get ownerId = some later
    ∧ entry.generation ≤ later.generation ∧ ∀ agent ∈ entry.agents, agent ∈ later.agents

/-- A removal gets a new generation only when it was complete. -/
def Finished (old new : RoomRemovals) : Prop :=
  ∀ ownerId entry later, old.owners.get ownerId = some entry → new.owners.get ownerId = some later →
    entry.generation < later.generation → entry.complete = true

/-- Every removal has a generation that the room has reached. -/
def Bounded (record : RoomRemovals) : Prop :=
  ∀ ownerId entry, record.owners.get ownerId = some entry → entry.generation ≤ record.generation

/-- A record that is valid is bounded by its generation. -/
theorem Bounded.of_valid {record : RoomRemovals} (valid : validRemovals record = true) :
    Bounded record := by
  intro ownerId entry found
  simp only [validRemovals, Bool.and_eq_true, List.all_eq_true, decide_eq_true_eq] at valid
  exact (valid.2 _ (Map.get_eq_some.mp found)).2

/-- A removal takes up a generation that is pending, or it begins the next one. -/
theorem removalGeneration_cases (previous : Option RoomRemovals) (ownerId : OwnerId) :
    (∃ record pending, previous = some record ∧ record.owners.get ownerId = some pending
      ∧ pending.complete = false
      ∧ removalGeneration previous ownerId = pending.generation) ∨
    ((∀ record pending, previous = some record → record.owners.get ownerId = some pending →
      pending.complete = true)
      ∧ removalGeneration previous ownerId = ((previous.map (·.generation)).getD 0) + 1) := by
  -- Without a record the next number is the first one.
  cases previous with
  | none => exact Or.inr ⟨(fun _ _ same => by cases same), rfl⟩
  | some record =>
    cases found : record.owners.get ownerId with
    | none =>
      refine Or.inr ⟨fun _ _ same inside => ?_, by simp [removalGeneration, found]⟩
      cases same
      cases found.symm.trans inside
    | some pending =>
      -- A removal that is not complete keeps its number; a complete one gets the next.
      cases complete : pending.complete with
      | false => exact Or.inl ⟨record, pending, rfl, found,
        complete, by simp [removalGeneration, found, complete]⟩
      | true =>
        refine Or.inr ⟨fun _ _ same inside => ?_, by simp [removalGeneration, found, complete]⟩
        cases same
        cases found.symm.trans inside
        exact complete

/-- A record follows itself. -/
theorem Follows.refl (record : RoomRemovals) : Follows record record :=
  ⟨rfl, Nat.le_refl _, fun _ entry found => ⟨entry, found, Nat.le_refl _, fun _ member => member⟩⟩

/-- What follows what follows, follows. -/
theorem Follows.trans {first second third : RoomRemovals} (one : Follows first second)
    (two : Follows second third) :
    Follows first third where
  creator := two.creator.trans one.creator
  generation := one.generation.trans two.generation
  owners := by
    intro ownerId entry found
    obtain ⟨middle, found', more, agents⟩ := one.owners ownerId entry found
    obtain ⟨later, found'', more', agents'⟩ := two.owners ownerId middle found'
    exact ⟨later, found'', more.trans more', fun agent member =>
      agents' agent (agents agent member)⟩

/-- Recording a removal keeps the record bounded. -/
theorem withRemoval_bounded {previous : Option RoomRemovals}
    (bounded : ∀ record, previous = some record → Bounded record) (creatorOwnerId ownerId : OwnerId)
    (agents : List Text) (label : Text) :
    Bounded (withRemoval previous creatorOwnerId ownerId agents label) := by
  intro other entry found
  have found : (((previous.map RoomRemovals.owners).getD Map.empty).set ownerId _).get other
    = some entry := found
  rw [Map.get_set] at found
  split at found
  · cases found
    exact Nat.le_max_left _ _
  · cases previous with
    | none => cases found
    | some record => exact (bounded record rfl other entry found).trans (Nat.le_max_right _ _)

/-- The merged agents are those of both lists. -/
theorem mem_mergeAgents {listed more : List Text} {agent : Text} :
    agent ∈ mergeAgents listed more ↔ agent ∈ listed ∨ agent ∈ more := by
  rw [mergeAgents, List.mem_eraseDups, List.mem_append]

/-- What recording a removal does to the record before it. -/
theorem withRemoval_follows {record : RoomRemovals} (bounded : Bounded record) (ownerId : OwnerId)
    (agents : List Text) (label : Text) :
    Follows record (withRemoval (some record) record.creatorOwnerId ownerId agents label)
      ∧ Finished record (withRemoval (some record) record.creatorOwnerId ownerId agents label) := by
  -- The removal changes the entry of this owner alone.
  have others : ∀ other, other ≠ ownerId →
      (withRemoval (some record) record.creatorOwnerId ownerId agents label).owners.get other
        = record.owners.get other :=
    fun other differs => Map.get_set_of_ne differs _
  refine ⟨⟨rfl, Nat.le_max_right _ _, fun other entry found => ?_⟩,
    fun other entry later found found' less => ?_⟩
  -- The owner's own entry goes on from the one before, as far as there was one.
  · by_cases same : other = ownerId
    · subst same
      refine ⟨_, Map.get_set_self .., ?_, fun agent member => mem_mergeAgents.mpr (Or.inl ?_)⟩
      · rcases removalGeneration_cases (some record) other
          with ⟨_, pending, is, inside, -, generation⟩ | ⟨-, generation⟩
        · cases is
          cases found.symm.trans inside
          exact Nat.le_of_eq generation.symm
        · exact generation ▸ Nat.le_succ_of_le (bounded other entry found)
      · have listed :
          entry.agents = ((record.owners.get other).map (·.agents)).getD [] := by rw [found]; rfl
        exact listed ▸ member
    · exact ⟨entry, (others other same).trans found, Nat.le_refl _, fun _ member => member⟩
  -- An entry whose number went up was complete before.
  · by_cases same : other = ownerId
    · subst same
      have generation : later.generation = removalGeneration (some record) other := by
        rw [← Option.some.inj ((Map.get_set_self ..).symm.trans found')]
      rcases removalGeneration_cases (some record) other
        with ⟨_, pending, is, inside, -, same⟩ | ⟨complete, -⟩
      · cases is
        cases found.symm.trans inside
        exact absurd less (Nat.not_lt.mpr (Nat.le_of_eq (generation.trans same)))
      · exact complete record entry rfl found
    · cases (others other same).symm.trans found' |>.symm.trans found
      exact absurd less (Nat.lt_irrefl _)

/-- What completing a removal does to the record before it. -/
theorem withComplete_follows {record : RoomRemovals} {ownerId : OwnerId} {entry : OwnerRemoval}
    (present : record.owners.get ownerId = some entry) :
    Follows record (withComplete record ownerId entry)
      ∧ Finished record (withComplete record ownerId entry) := by
  -- Each entry is kept, with its number and its agents.
  have kept : ∀ other before, record.owners.get other = some before →
      ∃ after, (withComplete record ownerId entry).owners.get other = some after
        ∧ after.generation = before.generation ∧ after.agents = before.agents := by
    intro other before found
    by_cases same : other = ownerId
    · subst same
      cases found.symm.trans present
      exact ⟨_, Map.get_set_self .., rfl, rfl⟩
    · exact ⟨before, (Map.get_set_of_ne same _).trans found, rfl, rfl⟩
  refine ⟨⟨rfl, Nat.le_refl _, fun other before found => ?_⟩,
    fun other before later found found' less => ?_⟩
  · obtain ⟨after, found', generation, agents⟩ := kept other before found
    exact ⟨after, found', Nat.le_of_eq generation.symm, fun agent member => agents ▸ member⟩
  -- So no number goes up.
  · obtain ⟨after, found'', generation, -⟩ := kept other before found
    cases found'.symm.trans found''
    exact absurd less (Nat.not_lt.mpr (Nat.le_of_eq generation))

/-- Completing a removal keeps the record bounded. -/
theorem withComplete_bounded {record : RoomRemovals} (bounded : Bounded record) {ownerId : OwnerId}
    {entry : OwnerRemoval} (present : record.owners.get ownerId = some entry) :
    Bounded (withComplete record ownerId entry) := by
  intro other after found
  have found :
    (record.owners.set ownerId { entry with complete := true }).get other = some after := found
  rw [Map.get_set] at found
  split at found
  · cases found
    exact bounded ownerId entry present
  · exact bounded other after found

/-! ## What an invite is worth -/

/-- An invite that is allowed is as new as every removal of its issuer, and for a human who was
removed it is the room creator's, as new as the removal, which is complete. -/
theorem removalState_allowed {removals : RoomRemovals} {invite : InviteRecord}
    {ownerId : Option OwnerId} (allowed : removalState removals invite ownerId = .allowed) :
    (∀ issuer, removals.owners.get invite.creatorOwnerId = some issuer →
      issuer.generation ≤ invite.removalGeneration.getD 0) ∧
    ∀ owner target, ownerId = some owner → removals.owners.get owner = some target →
      target.complete = true ∧ target.generation ≤ invite.removalGeneration.getD 0
        ∧ invite.creatorOwnerId = removals.creatorOwnerId := by
  simp only [removalState] at allowed
  split at allowed
  · cases allowed
  rename_i issued
  split at allowed
  · cases allowed
  rename_i aimed
  refine ⟨fun issuer found => ?_, fun owner target same found => ?_⟩
  · simpa [found] using issued
  · subst same
    simpa [found, and_assoc] using aimed

end Khala.Channels
