import Khala.Contracts.NameProjection

/-! A reader whose history begins late is shown the names that a reader of the whole history is
shown. -/

namespace Khala

open Js

section

variable (nfc nfkc : Text → Text) (identity : Map Text NameParticipant)

/-! ## What an event says about one agent -/

/-- A change that an agent's owner made, or the owner's word for what the agent is called. -/
inductive NameChange
  | rename (eventId name : Text)
  | snapshot (name : Text) (sourceEventId : Option Text)
deriving DecidableEq

/-- What the event says about the agent. -/
def changeOf (agent : Text) : NameTimelineEvent → Option NameChange
  | .message _ _ => none
  | .agentRename eventId actor target name =>
    (ownedName nfc nfkc identity actor target name).bind fun (_, target, checked) =>
      if target.participantId = agent then some (.rename eventId checked) else none
  | .agentNameSnapshot _ actor target name sourceEventId =>
    (ownedName nfc nfkc identity actor target name).bind fun (_, target, checked) =>
      if target.participantId = agent then some (.snapshot checked sourceEventId) else none

/-- The rename of the agent that the event is. -/
def renameOf (agent : Text) (event : NameTimelineEvent) : Option (Text × Text) :=
  match changeOf nfc nfkc identity agent event with
  | some (.rename eventId name) => some (eventId, name)
  | _ => none

/-- Whether the event is a snapshot of the agent's name. -/
def isSnapshotOf (agent : Text) (event : NameTimelineEvent) : Bool :=
  match changeOf nfc nfkc identity agent event with
  | some (.snapshot _ _) => true
  | _ => false

/-- The last rename of the agent. -/
def lastRename (agent : Text) (events : List NameTimelineEvent) : Option (Text × Text) :=
  (events.filterMap (renameOf nfc nfkc identity agent)).getLast?

/-- What a participant is called after these events. -/
def nameAfter (participant : NameParticipant) (events : List NameTimelineEvent) : Text :=
  ((lastRename nfc nfkc identity participant.participantId events).map (·.2)).getD
    participant.initialName

/-- Every snapshot names the latest rename of its agent before it, or none, and carries the name the
agent has there. -/
def Truthful (events : List NameTimelineEvent) : Prop :=
  ∀ before event after agent participant name sourceEventId, events = before ++ event :: after →
    identity.get agent = some participant →
    changeOf nfc nfkc identity agent event = some (.snapshot name sourceEventId) →
      sourceEventId = (lastRename nfc nfkc identity agent before).map (·.1)
        ∧ name = nameAfter nfc nfkc identity participant before

/-- Whether the event changes a name without being the agent's own owner's. -/
def foreign : NameTimelineEvent → Bool
  | .message _ _ => false
  | .agentRename _ actor target _ => !owns actor target
  | .agentNameSnapshot _ actor target _ _ => !owns actor target
where
  owns (actor target : Text) : Bool :=
    match identity.get actor, identity.get target with
    | some actor, some target =>
      actor.kind = .human && target.kind = .agent && actor.ownerId = target.ownerId
    | _, _ => false

end

/-! ## Steps -/

section

variable {nfc nfkc : Text → Text} {identity : Map Text NameParticipant}

/-- A rename changes a name under its own event. -/
theorem changeOf_rename {agent : Text} {event : NameTimelineEvent} {eventId name : Text}
    (change : changeOf nfc nfkc identity agent event = some (.rename eventId name)) :
    event.eventId = eventId := by
  -- Only an event that renames changes a name in this way, and under its own identifier.
  cases event with
  | message => cases change
  | agentRename eventId' actor target name' =>
    obtain ⟨⟨_, target, checked⟩, -, same⟩ := Option.bind_eq_some_iff.mp change
    simp only at same
    split at same
    · cases same
      rfl
    · cases same
  | agentNameSnapshot eventId' actor target name' source =>
    obtain ⟨⟨_, target, checked⟩, -, same⟩ := Option.bind_eq_some_iff.mp change
    simp only at same
    split at same
    · cases same
    · cases same

/-- A truthful history stays truthful when an event comes that is no snapshot, or one that says how
things stand. -/
theorem Truthful.concat {events : List NameTimelineEvent}
    (truthful : Truthful nfc nfkc identity events) {event : NameTimelineEvent}
    (stands : ∀ agent participant name sourceEventId, identity.get agent = some participant →
      changeOf nfc nfkc identity agent event = some (.snapshot name sourceEventId) →
      sourceEventId = (lastRename nfc nfkc identity agent events).map (·.1)
      ∧ name = nameAfter nfc nfkc identity participant events) :
    Truthful nfc nfkc identity (events ++ [event]) := by
  intro before event' after agent participant name sourceEventId split joined change
  rcases List.eq_nil_or_concat after with rfl | ⟨after', last, rfl⟩
  · obtain ⟨rfl, same⟩ := List.append_inj' split rfl
    cases same
    exact stands agent participant name sourceEventId joined change
  · rw [List.concat_eq_append, ← List.cons_append, ← List.append_assoc] at split
    obtain ⟨rfl, -⟩ := List.append_inj' split rfl
    exact truthful before event' after' agent participant name sourceEventId rfl joined change

/-- What a replayed event does to the names of one participant. -/
theorem currentNames_replay (projection : NameProjection) (event : NameTimelineEvent) {agent : Text}
    (known : (projection.currentNames.get agent).isSome = true) :
    (projection.replay nfc nfkc identity event).currentNames.get agent
      = match changeOf nfc nfkc identity agent event with
        | none => projection.currentNames.get agent
        | some (.rename _ name) => some name
        | some (.snapshot name _) =>
          if (projection.latestRename.get agent).isNone then some name
            else projection.currentNames.get agent := by
  obtain ⟨current, found⟩ := Option.isSome_iff_exists.mp known
  -- By the event: each changes the name of one agent at most.
  cases event with
  | message eventId author =>
    simp only [NameProjection.replay, changeOf]
    cases identity.get author with
    | none => rfl
    | some author => rfl
  -- A rename counts where its target is the agent and the name differs.
  | agentRename eventId actor target name =>
    simp only [NameProjection.replay, changeOf]
    cases ownedName nfc nfkc identity actor target name with
    | none => rfl
    | some owned =>
      obtain ⟨actor, target, checked⟩ := owned
      simp only [Option.bind_some]
      -- The event is about this agent or about another one.
      by_cases same : target.participantId = agent
      · subst same
        simp only [if_true, found, Option.getD_some]
        split
        · rename_i unchanged
          rw [found, unchanged]
        · rw [Map.get_set_self]
      · simp only [if_neg same]
        split
        · rfl
        · exact Map.get_set_of_ne (Ne.symm same) checked
  -- A snapshot counts as long as no rename is known of the agent.
  | agentNameSnapshot eventId actor target name source =>
    simp only [NameProjection.replay, changeOf]
    cases ownedName nfc nfkc identity actor target name with
    | none => rfl
    | some owned =>
      obtain ⟨actor, target, checked⟩ := owned
      simp only [Option.bind_some]
      by_cases same : target.participantId = agent
      · subst same
        simp only [if_true]
        cases latest : projection.latestRename.get target.participantId with
        | none => simp
        | some source' =>
          simp only [Option.isNone_some, Bool.false_eq_true, false_or, if_false]
          -- A known rename is only confirmed by a snapshot of the same one.
          split
          · rename_i same
            rw [Map.get_set_self, same.2]
          · rfl
      · simp only [if_neg same]
        split
        · exact Map.get_set_of_ne (Ne.symm same) checked
        · rfl

/-- A participant that has a name keeps having one. -/
theorem isSome_replay {projection : NameProjection} {agent : Text} (event : NameTimelineEvent)
    (known : (projection.currentNames.get agent).isSome = true) :
    ((projection.replay nfc nfkc identity event).currentNames.get agent).isSome = true := by
  rw [currentNames_replay projection event known]
  split
  · exact known
  · rfl
  · split
    · rfl
    · exact known

/-- One more event is the last rename, if it is one. -/
theorem lastRename_concat (agent : Text) (events : List NameTimelineEvent)
    (event : NameTimelineEvent) :
    lastRename nfc nfkc identity agent (events ++ [event])
      = (renameOf nfc nfkc identity agent event).or
        (lastRename nfc nfkc identity agent events) := by
  unfold lastRename
  rw [List.filterMap_append]
  cases renamed : renameOf nfc nfkc identity agent event with
  | none => simp [renamed]
  | some change => simp [renamed]

/-- The last rename is one of the later events, or else of the earlier ones. -/
theorem lastRename_append (agent : Text) (before after : List NameTimelineEvent) :
    lastRename nfc nfkc identity agent (before ++ after)
      = (lastRename nfc nfkc identity agent after).or
        (lastRename nfc nfkc identity agent before) := by
  unfold lastRename
  rw [List.filterMap_append, List.getLast?_append]

/-- A rename that was found is an event of the list. -/
theorem exists_of_lastRename {agent : Text} {events : List NameTimelineEvent} {eventId name : Text}
    (last : lastRename nfc nfkc identity agent events = some (eventId, name)) :
    ∃ event ∈ events, renameOf nfc nfkc identity agent event = some (eventId, name) :=
  List.mem_filterMap.mp (List.mem_of_getLast? last)

/-- There is no last rename exactly when no event is one. -/
theorem lastRename_eq_none {agent : Text} {events : List NameTimelineEvent} :
    lastRename nfc nfkc identity agent events = none ↔ ∀ event ∈ events,
      renameOf nfc nfkc identity agent event = none := by
  rw [lastRename, List.getLast?_eq_none_iff, List.filterMap_eq_nil_iff]

/-- A rename of an agent stands under its own identifier, and a reader who has it sees it. -/
theorem renameOf_visible {agent eventId name : Text} {event : NameTimelineEvent}
    (renamed : renameOf nfc nfkc identity agent event = some (eventId, name)) :
    event.eventId = eventId ∧ ∀ events, event ∈ events → eventId ∈ visibleRenames events := by
  -- Only a rename is of this kind.
  unfold renameOf at renamed
  split at renamed
  · rename_i change
    cases renamed
    have same := changeOf_rename change
    refine ⟨same, fun events inside => List.mem_filterMap.mpr ⟨event, inside, ?_⟩⟩
    -- It is in view as itself.
    cases event with
    | message => cases change
    | agentRename => exact congrArg some same
    | agentNameSnapshot =>
      obtain ⟨⟨_, target, checked⟩, -, same⟩ := Option.bind_eq_some_iff.mp change
      simp only at same
      split at same
      · cases same
      · cases same
  · cases renamed

/-- A visible rename is the event of one. -/
theorem eventId_of_visible {events : List NameTimelineEvent} {eventId : Text}
    (visible : eventId ∈ visibleRenames events) :
    ∃ actor target name, .agentRename eventId actor target name ∈ events := by
  obtain ⟨event, inside, same⟩ := List.mem_filterMap.mp visible
  cases event with
  | message => cases same
  | agentRename eventId' actor target name =>
    cases same
    exact ⟨actor, target, name, inside⟩
  | agentNameSnapshot => cases same

/-! ## Being in step -/

variable (nfc nfkc identity) in
/-- The participant is shown under the name that the whole history before gives them. -/
def InStep (participant : NameParticipant) (before : List NameTimelineEvent)
    (projection : NameProjection) : Prop :=
  projection.currentNames.get participant.participantId
    = some (nameAfter nfc nfkc identity participant before)

/-- A rename puts the shown name in step, whatever was shown before it. -/
theorem inStep_rename {participant : NameParticipant} {event : NameTimelineEvent}
    (renamed : (renameOf nfc nfkc identity participant.participantId event).isSome = true)
    (before : List NameTimelineEvent) {projection : NameProjection}
    (known : (projection.currentNames.get participant.participantId).isSome = true) :
    InStep nfc nfkc identity participant (before ++ [event])
      (projection.replay nfc nfkc identity event) := by
  obtain ⟨⟨eventId, name⟩, renamed⟩ := Option.isSome_iff_exists.mp renamed
  rw [InStep, nameAfter, lastRename_concat, renamed, currentNames_replay projection event known]
  unfold renameOf at renamed
  split at renamed
  · rename_i change
    cases renamed
    simp [change]
  · cases renamed

/-- In a truthful history no event puts a shown name out of step. -/
theorem inStep_replay {events before after : List NameTimelineEvent} {event : NameTimelineEvent}
    (truthful : Truthful nfc nfkc identity events) (split : events = before ++ event :: after)
    {participant : NameParticipant}
    (joined : identity.get participant.participantId = some participant)
    {projection : NameProjection}
    (inStep : InStep nfc nfkc identity participant before projection) :
    InStep nfc nfkc identity participant (before ++ [event])
      (projection.replay nfc nfkc identity event) := by
  have known :
    (projection.currentNames.get participant.participantId).isSome = true := by rw [inStep]; rfl
  cases change : changeOf nfc nfkc identity participant.participantId event with
  | none =>
    rw [InStep, nameAfter, lastRename_concat, currentNames_replay projection event known]
    simp only [renameOf, change, Option.none_or]
    exact inStep
  | some change' =>
    cases change' with
    | rename eventId name =>
      apply inStep_rename _ before known
      simp [renameOf, change]
    | snapshot name source =>
      -- The snapshot carries the name that is shown already.
      obtain ⟨-, carries⟩ :=
        truthful before event after _ participant name source split joined change
      rw [InStep, nameAfter, lastRename_concat, currentNames_replay projection event known]
      simp only [renameOf, change, Option.none_or]
      split
      · exact congrArg some carries
      · exact inStep

/-- Replaying the rest keeps the names in step. -/
theorem inStep_replays {events : List NameTimelineEvent}
    (truthful : Truthful nfc nfkc identity events) {participant : NameParticipant}
    (joined : identity.get participant.participantId = some participant)
    (rest : List NameTimelineEvent) :
    ∀ (before : List NameTimelineEvent) (projection : NameProjection), events = before ++ rest →
      InStep nfc nfkc identity participant before projection →
      InStep nfc nfkc identity participant events
        (rest.foldl (NameProjection.replay nfc nfkc identity) projection) := by
  -- By induction on the events that are left.
  induction rest with
  | nil =>
    intro before projection split inStep
    rw [split, List.append_nil]
    exact inStep
  | cons event rest ih =>
    intro before projection split inStep
    exact ih (before ++ [event]) _ (by rw [split]; simp)
      (inStep_replay truthful split joined inStep)

/-- An agent that has a name keeps having one. -/
theorem isSome_replays {agent : Text} (rest : List NameTimelineEvent) :
    ∀ projection : NameProjection, (projection.currentNames.get agent).isSome = true →
      ((rest.foldl (NameProjection.replay nfc nfkc identity) projection).currentNames.get
        agent).isSome = true := by
  induction rest with
  | nil => exact fun _ known => known
  | cons event rest ih => exact fun projection known => ih _ (isSome_replay event known)

/-! ## The baseline -/

variable (nfc nfkc identity) in
/-- The agent, its name and the rename that a snapshot gives to a reader who does not have the
rename. -/
def baselineOf (visible : List Text) : NameTimelineEvent → Option (Text × Text × Text)
  | .agentNameSnapshot _ actor target name (some sourceEventId) =>
    if sourceEventId ∈ visible then none
    else (ownedName nfc nfkc identity actor target name).map fun (_, target, checked) =>
      (target.participantId, checked, sourceEventId)
  | _ => none

/-- What a baseline adds to a projection. -/
theorem baseline_eq (visible : List Text) (projection : NameProjection)
    (event : NameTimelineEvent) :
    projection.baseline nfc nfkc identity visible event
      = match baselineOf nfc nfkc identity visible event with
        | some (agent, name, sourceEventId) =>
          if (projection.latestRename.get agent).isNone then
            { projection with
              currentNames := projection.currentNames.set agent name
              latestRename := projection.latestRename.set agent (some sourceEventId) }
          else projection
        | none => projection := by
  unfold NameProjection.baseline baselineOf
  -- Only a snapshot with a source can set a name at the start.
  cases event with
  | message => rfl
  | agentRename => rfl
  | agentNameSnapshot eventId actor target name source =>
    cases source with
    | none => rfl
    | some source =>
      simp only
      -- Its source is in view, or its owner is checked.
      split
      · rfl
      · cases ownedName nfc nfkc identity actor target name with
        | none => rfl
        | some owned => rfl

/-- Which snapshots are a baseline, told by what they say about an agent. -/
theorem baselineOf_eq_some {visible : List Text} {event : NameTimelineEvent}
    {agent name sourceEventId : Text} :
    baselineOf nfc nfkc identity visible event = some (agent, name, sourceEventId)
      ↔ changeOf nfc nfkc identity agent event = some (.snapshot name (some sourceEventId))
        ∧ sourceEventId ∉ visible := by
  cases event with
  | message => simp [baselineOf, changeOf]
  -- A rename sets no start.
  | agentRename eventId actor target name' =>
    simp only [baselineOf, changeOf, reduceCtorEq, false_iff, not_and]
    intro change
    obtain ⟨⟨_, target, checked⟩, -, same⟩ := Option.bind_eq_some_iff.mp change
    simp only at same
    split at same <;> cases same
  | agentNameSnapshot eventId actor target name' source =>
    cases source with
    | none =>
      simp only [baselineOf, changeOf, reduceCtorEq, false_iff, not_and]
      intro change
      obtain ⟨⟨_, target, checked⟩, -, same⟩ := Option.bind_eq_some_iff.mp change
      simp only at same
      split at same <;> cases same
    -- A snapshot sets one where its source is out of view, which is the condition.
    | some source =>
      simp only [baselineOf, changeOf]
      cases ownedName nfc nfkc identity actor target name' with
      | none => simp
      | some owned =>
        obtain ⟨actor, target, checked⟩ := owned
        simp only [Option.map_some, Option.bind_some]
        split
        -- In view: then no start is set.
        · rename_i inView
          simp only [reduceCtorEq, false_iff, not_and, not_not]
          intro same
          split at same
          · cases same
            exact inView
          · cases same
        -- Out of view: both sides say whose name it is.
        · rename_i outOfView
          simp only [Option.some.injEq, Prod.mk.injEq, Option.ite_none_right_eq_some,
            NameChange.snapshot.injEq]
          constructor
          · rintro ⟨rfl, rfl, rfl⟩
            exact ⟨⟨rfl, rfl, rfl⟩, outOfView⟩
          · rintro ⟨⟨rfl, rfl, rfl⟩, -⟩
            exact ⟨rfl, rfl, rfl⟩

variable (nfc nfkc identity) in
/-- How a participant's name stands after the baselines of some events: in step with the history
before the boundary, or untouched because none of the events is a baseline for them. -/
def Started (participant : NameParticipant) (before visible_ : List NameTimelineEvent)
    (done : List NameTimelineEvent) (projection : NameProjection) : Prop :=
  InStep nfc nfkc identity participant before projection
    ∨ projection.currentNames.get participant.participantId = some participant.initialName
      ∧ projection.latestRename.get participant.participantId = none
      ∧ ∀ event ∈ done, ∀ name sourceEventId,
        baselineOf nfc nfkc identity (visibleRenames visible_) event
        ≠ some (participant.participantId, name, sourceEventId)

/-- Every baseline of a truthful history's end gives its agent the name from before the end. -/
theorem started_baseline {before suffix done rest : List NameTimelineEvent}
    {event : NameTimelineEvent} (truthful : Truthful nfc nfkc identity (before ++ suffix))
    (split : suffix = done ++ event :: rest) {participant : NameParticipant}
    (joined : identity.get participant.participantId = some participant)
    {projection : NameProjection}
    (started : Started nfc nfkc identity participant before suffix done projection) :
    Started nfc nfkc identity participant before suffix (done ++ [event])
      (projection.baseline nfc nfkc identity (visibleRenames suffix) event) := by
  rw [baseline_eq]
  cases based : baselineOf nfc nfkc identity (visibleRenames suffix) event with
  | none =>
    -- An event that is no base changes nothing.
    rcases started with inStep | ⟨initial, none_, untouched⟩
    · exact .inl inStep
    · refine .inr ⟨initial, none_, fun other inside => ?_⟩
      rcases List.mem_append.mp inside with inside | inside
      · exact untouched other inside
      · rw [List.mem_singleton.mp inside, based]
        nofun
  | some base =>
    obtain ⟨agent, name, sourceEventId⟩ := base
    simp only
    by_cases same : agent = participant.participantId
    · subst same
      -- The rename that the snapshot names is the last one, and the reader does not have it.
      obtain ⟨change, outOfView⟩ := baselineOf_eq_some.mp based
      obtain ⟨source, carries⟩ :=
        truthful (before ++ done) event rest _ participant name (some sourceEventId)
        (by rw [split]; simp) joined change
      have fromBefore : lastRename nfc nfkc identity participant.participantId done = none := by
        cases last : lastRename nfc nfkc identity participant.participantId done with
        | none => rfl
        | some renamed =>
          obtain ⟨eventId, name'⟩ := renamed
          obtain ⟨event', inside, renamed⟩ := exists_of_lastRename last
          rw [lastRename_append, last] at source
          cases source
          exact absurd
            ((renameOf_visible renamed).2 suffix (split ▸ List.mem_append_left _ inside)) outOfView
      have named : name = nameAfter nfc nfkc identity participant before := by
        rw [carries, nameAfter, nameAfter, lastRename_append, fromBefore, Option.none_or]
      split_ifs with latest
      · left
        rw [InStep, Map.get_set_self, named]
      · rcases started with inStep | ⟨-, none_, -⟩
        · exact .inl inStep
        · rw [none_] at latest
          exact absurd rfl latest
    -- A base of another agent leaves this one as it was.
    · have other : ∀ event' ∈ [event], ∀ name' source',
        baselineOf nfc nfkc identity (visibleRenames suffix) event'
          ≠ some (participant.participantId, name', source') := by
        intro event' inside name' source'
        rw [List.mem_singleton.mp inside, based]
        intro same'
        cases same'
        exact same rfl
      have kept :
        Started nfc nfkc identity participant before suffix (done ++ [event]) projection := by
        rcases started with inStep | ⟨initial, none_, untouched⟩
        · exact .inl inStep
        · refine .inr ⟨initial, none_, fun event' inside => ?_⟩
          rcases List.mem_append.mp inside with inside | inside
          · exact untouched event' inside
          · exact other event' inside
      split_ifs with latest
      · simp only [Started, InStep, Map.get_set_of_ne (Ne.symm same)] at kept ⊢
        exact kept
      · exact kept

/-- The first loop as a whole. -/
theorem started_baselines {before suffix : List NameTimelineEvent}
    (truthful : Truthful nfc nfkc identity (before ++ suffix)) {participant : NameParticipant}
    (joined : identity.get participant.participantId = some participant)
    (rest : List NameTimelineEvent) :
    ∀ (done : List NameTimelineEvent) (projection : NameProjection), suffix = done ++ rest →
      Started nfc nfkc identity participant before suffix done projection →
      Started nfc nfkc identity participant before suffix suffix
        (rest.foldl (NameProjection.baseline nfc nfkc identity (visibleRenames suffix))
          projection) := by
  induction rest with
  | nil =>
    intro done projection split started
    rw [List.append_nil] at split
    subst split
    exact started
  | cons event rest ih =>
    intro done projection split started
    exact ih (done ++ [event]) _ (by rw [split]; simp)
      (started_baseline truthful split joined started)

variable (nfc nfkc identity) in
/-- The events hold a snapshot of the agent's name, ahead of the agent's next rename. -/
def SnapshotAhead (agent : Text) (suffix : List NameTimelineEvent) : Prop :=
  ∃ ahead snapshot after, suffix = ahead ++ snapshot :: after
    ∧ isSnapshotOf nfc nfkc identity agent snapshot = true
    ∧ ∀ event ∈ ahead, renameOf nfc nfkc identity agent event = none

/-- A participant who was not renamed before the boundary, or has a snapshot ahead of the next
rename, is shown in step from the start. -/
theorem inStep_start {before suffix : List NameTimelineEvent}
    (distinct : ((before ++ suffix).map (·.eventId)).Nodup)
    (truthful : Truthful nfc nfkc identity (before ++ suffix)) {participant : NameParticipant}
    (joined : identity.get participant.participantId = some participant)
    {projection : NameProjection}
    (started : Started nfc nfkc identity participant before suffix suffix projection)
    (covered : lastRename nfc nfkc identity participant.participantId before = none
      ∨ SnapshotAhead nfc nfkc identity participant.participantId suffix) :
    InStep nfc nfkc identity participant before projection := by
  -- The reader starts in step, or starts with the initial name.
  rcases started with inStep | ⟨initial, -, untouched⟩
  · exact inStep
  · cases last : lastRename nfc nfkc identity participant.participantId before with
    -- Without a rename before the boundary the initial name is the right one.
    | none =>
      rw [InStep, nameAfter, last]
      exact initial
    | some renamed =>
      obtain ⟨eventId, name⟩ := renamed
      rcases covered with none_ | ⟨ahead, snapshot, after, split, isSnapshot, unrenamed⟩
      · rw [last] at none_
        cases none_
      · -- The snapshot names the rename before the boundary, which the reader does not have.
        exfalso
        -- The snapshot tells of the last rename before it.
        unfold isSnapshotOf at isSnapshot
        split at isSnapshot
        · rename_i name' source change
          obtain ⟨named, -⟩ := truthful (before ++ ahead) snapshot after _ participant name' source
            (by rw [split]; simp) joined change
          rw [lastRename_append, lastRename_eq_none.mpr unrenamed, Option.none_or, last,
            Option.map_some] at named
          subst named
          -- That rename is not in the part, since identifiers are distinct.
          have outOfView : eventId ∉ visibleRenames suffix := by
            intro visible
            obtain ⟨event, inside, renamed⟩ := exists_of_lastRename last
            obtain ⟨actor, target, name'', inSuffix⟩ := eventId_of_visible visible
            rw [List.map_append, List.nodup_append] at distinct
            exact distinct.2.2 eventId
              (List.mem_map.mpr ⟨event, inside, (renameOf_visible renamed).1⟩) eventId
              (List.mem_map.mpr ⟨_, inSuffix, rfl⟩) rfl
          -- So the snapshot would have set the start, which it did not.
          exact untouched snapshot (split ▸ List.mem_append_right _ List.mem_cons_self) name'
            eventId
            (baselineOf_eq_some.mpr ⟨change, outOfView⟩)
        · cases isSnapshot

/-! ## Messages -/

variable (nfc nfkc identity) in
/-- Each of the agent's messages has a rename of the agent ahead of it. -/
def RenamedAhead (agent : Text) (events : List NameTimelineEvent) : Prop :=
  ∀ ahead eventId after, events = ahead ++ NameTimelineEvent.message eventId agent :: after →
    ∃ event ∈ ahead, (renameOf nfc nfkc identity agent event).isSome = true

variable (identity) in
/-- What a message is shown to be written by, where the names are these. -/
def authorName (currentNames : Map Text Text) : NameTimelineEvent → Option (Text × Text)
  | .message eventId author => (identity.get author).map fun participant =>
    (eventId, (currentNames.get author).getD participant.initialName)
  | _ => none

/-- An event adds the name of its author. -/
theorem authorNames_replay (projection : NameProjection) (event : NameTimelineEvent) :
    (projection.replay nfc nfkc identity event).authorNames
      = projection.authorNames ++ (authorName identity projection.currentNames event).toList := by
  -- By the event: only a message that is shown has an author.
  cases event with
  | message eventId author =>
    simp only [NameProjection.replay, authorName]
    cases identity.get author with
    | none => simp
    | some participant => simp [NameProjection.authorNames]
  | agentRename eventId actor target name =>
    simp only [NameProjection.replay, authorName]
    cases ownedName nfc nfkc identity actor target name with
    | none => simp
    | some owned =>
      simp only
      split
      · simp [NameProjection.authorNames]
      · simp [NameProjection.authorNames]
  | agentNameSnapshot eventId actor target name source =>
    simp only [NameProjection.replay, authorName]
    cases ownedName nfc nfkc identity actor target name with
    | none => simp
    | some owned =>
      simp only
      split
      · simp [NameProjection.authorNames]
      · simp [NameProjection.authorNames]

/-- The name of an author is that of the event's. -/
theorem eventId_authorName {currentNames : Map Text Text} {event : NameTimelineEvent}
    {shown : Text × Text} (shows : authorName identity currentNames event = some shown) :
    shown.1 = event.eventId := by
  cases event with
  | message =>
    obtain ⟨participant, -, rfl⟩ := Option.map_eq_some_iff.mp shows
    rfl
  | agentRename => cases shows
  | agentNameSnapshot => cases shows

/-- Shown names stand under the identifiers of the events they are shown for. -/
theorem authorNames_replays (events : List NameTimelineEvent) :
    ∀ projection : NameProjection, ∃ shown,
      (events.foldl (NameProjection.replay nfc nfkc identity) projection).authorNames
        = projection.authorNames ++ shown
        ∧ ∀ entry ∈ shown, entry.1 ∈ events.map (·.eventId) := by
  induction events with
  | nil => exact fun projection => ⟨[], (List.append_nil _).symm, nofun⟩
  | cons event rest ih =>
    intro projection
    obtain ⟨shown, after, inside⟩ := ih (projection.replay nfc nfkc identity event)
    refine ⟨(authorName identity projection.currentNames event).toList ++ shown, ?_,
      fun entry isShown => ?_⟩
    · rw [List.foldl_cons, after, authorNames_replay, List.append_assoc]
    · rcases List.mem_append.mp isShown with first | later
      · exact List.mem_cons.mpr (.inl (eventId_authorName (Option.mem_toList.mp first)))
      · exact List.mem_cons_of_mem _ (inside entry later)

/-- Two readers show the same names for the same messages when one is in step, and the other is for
every participant who does not have a rename ahead of each message. -/
theorem authorNames_same {events : List NameTimelineEvent}
    (truthful : Truthful nfc nfkc identity events)
    (keyed : ∀ agent participant, identity.get agent = some participant →
      participant.participantId = agent)
    (rest : List NameTimelineEvent) :
    ∀ (before : List NameTimelineEvent) (whole part : NameProjection), events = before ++ rest →
      (∀ agent participant, identity.get agent = some participant →
        InStep nfc nfkc identity participant before whole) →
      (∀ agent participant, identity.get agent = some participant →
        (part.currentNames.get agent).isSome = true
          ∧ (InStep nfc nfkc identity participant before part
            ∨ RenamedAhead nfc nfkc identity agent rest)) →
      ∃ shown, (rest.foldl (NameProjection.replay nfc nfkc identity) whole).authorNames
        = whole.authorNames ++ shown
        ∧ (rest.foldl (NameProjection.replay nfc nfkc identity) part).authorNames
          = part.authorNames ++ shown := by
  -- By induction on the events that are left; the first rename of an agent puts it in step.
  induction rest with
  | nil => exact fun _ _ _ _ _ _ => ⟨[], (List.append_nil _).symm, (List.append_nil _).symm⟩
  | cons event rest ih =>
    intro before whole part split inStep covered
    -- A message shows the name that its author has in both projections.
    have shownSame :
      authorName identity part.currentNames event
      = authorName identity whole.currentNames event := by
      cases event with
      | agentRename => rfl
      | agentNameSnapshot => rfl
      | message eventId author =>
        simp only [authorName]
        cases joined : identity.get author with
        | none => rfl
        | some participant =>
          have known := keyed author participant joined
          have first := inStep author participant joined
          rcases (covered author participant joined).2 with second | ahead
          · rw [InStep, known] at first second
            rw [first, second]
          · obtain ⟨other, inside, -⟩ := ahead [] eventId rest rfl
            cases inside
    obtain ⟨shown, first, second⟩ := ih (before ++ [event]) (whole.replay nfc nfkc identity event)
      (part.replay nfc nfkc identity event) (by rw [split]; simp)
        (fun agent participant joined => by
        have known := keyed agent participant joined
        exact inStep_replay truthful split (known.symm ▸ joined) (inStep agent participant joined))
          (by
      -- The agents stay in step, or a rename is still to come.
      intro agent participant joined
      have known := keyed agent participant joined
      subst known
      obtain ⟨named, covered⟩ := covered participant.participantId participant joined
      refine ⟨isSome_replay event named, ?_⟩
      rcases covered with second | ahead
      · exact .inl (inStep_replay truthful split joined second)
      · cases renamed : renameOf nfc nfkc identity participant.participantId event with
        | some change => exact .inl (inStep_rename (by rw [renamed]; rfl) before named)
        | none =>
          right
          intro ahead' eventId after split'
          obtain ⟨other, inside, isRename⟩ :=
            ahead (event :: ahead') eventId after (by rw [split']; rfl)
          rcases List.mem_cons.mp inside with rfl | inside
          · rw [renamed] at isRename
            cases isRename
          · exact ⟨other, inside, isRename⟩)
    refine ⟨(authorName identity whole.currentNames event).toList ++ shown, ?_, ?_⟩
    · rw [List.foldl_cons, first, authorNames_replay, List.append_assoc]
    · rw [List.foldl_cons, second, authorNames_replay, shownSame, List.append_assoc]

/-! ## Duplicates -/

/-- The events without those whose identifier was there before. -/
def firstsFrom (seen : List Text) : List NameTimelineEvent → List NameTimelineEvent
  | [] => []
  | event :: rest =>
    if event.eventId ∈ seen then firstsFrom seen rest
      else event :: firstsFrom (event.eventId :: seen) rest

/-- The events of a history, in their order, with copies of some of them after them. -/
def Delivers (history delivered : List NameTimelineEvent) : Prop :=
  firstsFrom [] delivered = history ∧ ∀ event ∈ delivered, event ∈ history

/-- Replaying all events is replaying the first of each. -/
theorem replayAll_eq (events : List NameTimelineEvent) :
    ∀ (seen : List Text) (projection : NameProjection),
      projection.replayAll nfc nfkc identity seen events
        = (firstsFrom seen events).foldl (NameProjection.replay nfc nfkc identity) projection := by
  induction events with
  | nil => exact fun _ _ => rfl
  | cons event rest ih =>
    intro seen projection
    rw [NameProjection.replayAll, firstsFrom]
    split
    · exact ih seen projection
    · exact ih (event.eventId :: seen) (projection.replay nfc nfkc identity event)

/-- A history without duplicates delivers itself. -/
theorem delivers_self {history : List NameTimelineEvent}
    (distinct : (history.map (·.eventId)).Nodup) :
    Delivers history history := by
  -- The statement is for any identifiers seen so far that do not meet the events.
  have general : ∀ (events : List NameTimelineEvent) (seen : List Text),
    (events.map (·.eventId)).Nodup →
      (∀ event ∈ events, event.eventId ∉ seen) → firstsFrom seen events = events := by
    intro events
    induction events with
    | nil => exact fun _ _ _ => rfl
    | cons event rest ih =>
      intro seen distinct unseen
      rw [List.map_cons, List.nodup_cons] at distinct
      rw [firstsFrom, if_neg (unseen event List.mem_cons_self), ih _ distinct.2]
      intro other inside isSeen
      rcases List.mem_cons.mp isSeen with same | isSeen
      · exact distinct.1 (List.mem_map.mpr ⟨other, inside, same⟩)
      · exact unseen other (List.mem_cons_of_mem _ inside) isSeen
  exact ⟨general history [] distinct (fun _ _ => List.not_mem_nil), fun event inside => inside⟩

/-- The first events are events. -/
theorem mem_firstsFrom {events : List NameTimelineEvent} {seen : List Text}
    {event : NameTimelineEvent} (first : event ∈ firstsFrom seen events) : event ∈ events := by
  induction events generalizing seen with
  | nil => cases first
  | cons other rest ih =>
    rw [firstsFrom] at first
    split at first
    · exact List.mem_cons_of_mem _ (ih first)
    · rcases List.mem_cons.mp first with rfl | first
      · exact List.mem_cons_self
      · exact List.mem_cons_of_mem _ (ih first)

/-- A baseline that has nothing left to do for its agent has nothing to do later on. -/
private theorem baseline_settled {visible : List Text} {projection : NameProjection}
    {event : NameTimelineEvent}
    (settled : projection.baseline nfc nfkc identity visible event = projection)
    (other : NameTimelineEvent) :
    (projection.baseline nfc nfkc identity visible other).baseline nfc nfkc identity visible event
      = projection.baseline nfc nfkc identity visible other := by
  -- The start is set once, and from then on the agent has a rename that is known.
  rw [baseline_eq] at settled ⊢
  cases based : baselineOf nfc nfkc identity visible event with
  | none => rfl
  | some base =>
    obtain ⟨agent, name, sourceEventId⟩ := base
    rw [based] at settled
    simp only at settled ⊢
    have named : (projection.latestRename.get agent).isNone = false := by
      cases latest : projection.latestRename.get agent with
      | some source => rfl
      | none =>
        rw [latest, Option.isNone_none, if_pos rfl] at settled
        have same := congrArg (fun projection => projection.latestRename.get agent) settled
        simp [latest] at same
    -- Another start cannot take that away.
    have kept :
      ((projection.baseline nfc nfkc identity visible other).latestRename.get agent).isNone
      = false := by
      rw [baseline_eq]
      cases baselineOf nfc nfkc identity visible other with
      | none => exact named
      | some base' =>
        obtain ⟨agent', name', source'⟩ := base'
        simp only
        split
        · simp only [Map.get_set]
          split
          · rfl
          · exact named
        · exact named
    rw [kept]
    simp

/-- A baseline is settled once it was read. -/
private theorem baseline_twice (visible : List Text) (projection : NameProjection)
    (event : NameTimelineEvent) :
    (projection.baseline nfc nfkc identity visible event).baseline nfc nfkc identity visible event
      = projection.baseline nfc nfkc identity visible event := by
  rw [baseline_eq, baseline_eq]
  cases baselineOf nfc nfkc identity visible event with
  | none => rfl
  | some base =>
    obtain ⟨agent, name, sourceEventId⟩ := base
    simp only
    cases latest : projection.latestRename.get agent with
    | none => simp
    | some source => simp [latest]

/-- Copies of baselines that were read change nothing. -/
private theorem baselines_firstsFrom {visible : List Text} (events : List NameTimelineEvent) :
    ∀ (seen : List Text) (projection : NameProjection),
      (∀ event ∈ events, ∀ event' ∈ events, event.eventId = event'.eventId → event = event') →
      (∀ event ∈ events, event.eventId ∈ seen →
        projection.baseline nfc nfkc identity visible event = projection) →
      events.foldl (NameProjection.baseline nfc nfkc identity visible) projection
        = (firstsFrom seen events).foldl (NameProjection.baseline nfc nfkc identity visible)
          projection := by
  -- The induction is on the events, with the identifiers seen so far.
  induction events with
  | nil => exact fun _ _ _ _ => rfl
  | cons event rest ih =>
    intro seen projection identified settled
    have identified' : ∀ event ∈ rest, ∀ event' ∈ rest, event.eventId = event'.eventId →
      event = event' :=
      fun one inside two inside' =>
        identified one (List.mem_cons_of_mem _ inside) two (List.mem_cons_of_mem _ inside')
    rw [firstsFrom, List.foldl_cons]
    split
    -- An event seen before has set its start already.
    · rename_i isSeen
      rw [settled event List.mem_cons_self isSeen]
      exact ih seen projection identified' fun other inside =>
        settled other (List.mem_cons_of_mem _ inside)
    · rw [List.foldl_cons]
      apply ih _ _ identified'
      intro other inside isSeen
      -- The event just passed is settled, and so are those settled before it.
      rcases List.mem_cons.mp isSeen with same | isSeen
      · rw [identified other (List.mem_cons_of_mem _ inside) event List.mem_cons_self same]
        exact baseline_twice visible projection event
      · exact baseline_settled (settled other (List.mem_cons_of_mem _ inside) isSeen) event

/-- Duplicated events change nothing. -/
theorem projectNamesInOrder_delivered (participants : List NameParticipant)
    {history delivered : List NameTimelineEvent} (distinct : (history.map (·.eventId)).Nodup)
    (delivers : Delivers history delivered) :
    projectNamesInOrder nfc nfkc participants delivered
      = projectNamesInOrder nfc nfkc participants history := by
  obtain ⟨firsts, copies⟩ := delivers
  -- Copies bring no rename into view that was not there.
  have visible : ∀ eventId, eventId ∈ visibleRenames delivered
    ↔ eventId ∈ visibleRenames history := by
    intro eventId
    simp only [visibleRenames, List.mem_filterMap]
    constructor
    · rintro ⟨event, inside, same⟩
      exact ⟨event, copies event inside, same⟩
    · rintro ⟨event, inside, same⟩
      exact ⟨event, mem_firstsFrom (firsts ▸ inside), same⟩
  have baseline : NameProjection.baseline nfc nfkc (identityMap participants)
    (visibleRenames delivered)
      = NameProjection.baseline nfc nfkc (identityMap participants) (visibleRenames history) := by
    funext projection event
    unfold NameProjection.baseline
    simp only [visible]
  -- Events of one identifier are one event.
  have identified : ∀ event ∈ delivered, ∀ event' ∈ delivered, event.eventId = event'.eventId →
    event = event' :=
    fun event inside event' inside' => List.inj_on_of_nodup_map distinct (copies event inside)
      (copies event' inside')
  -- Both passes see the same first events, in the same order.
  unfold projectNamesInOrder
  simp only
  rw [replayAll_eq, replayAll_eq, firsts, (delivers_self distinct).1, baseline,
    baselines_firstsFrom delivered [] _ identified (fun _ _ held => by cases held), firsts]

/-! ## Events of others -/

/-- A foreign actor owns no name. -/
theorem ownedName_eq_none_of_foreign {actor target : Text}
    (other : foreign.owns identity actor target = false) (name : Text) :
    ownedName nfc nfkc identity actor target name = none := by
  revert other
  unfold foreign.owns ownedName
  intro other
  split
  · rename_i actor' target' checked isActor isTarget _
    apply if_neg
    intro owns
    simp [isActor, isTarget, owns.1, owns.2.1, owns.2.2] at other
  · rfl

/-- A foreign event changes nothing. -/
theorem replay_foreign {event : NameTimelineEvent} (other : foreign identity event = true)
    (projection : NameProjection) :
    projection.replay nfc nfkc identity event = projection := by
  cases event with
  | message => cases other
  | agentRename eventId actor target name =>
    simp only [foreign, Bool.not_eq_true'] at other
    simp only [NameProjection.replay, ownedName_eq_none_of_foreign other]
  | agentNameSnapshot eventId actor target name source =>
    simp only [foreign, Bool.not_eq_true'] at other
    simp only [NameProjection.replay, ownedName_eq_none_of_foreign other]

/-- A foreign event changes no name. -/
theorem changeOf_foreign {event : NameTimelineEvent} (other : foreign identity event = true)
    (agent : Text) :
    changeOf nfc nfkc identity agent event = none := by
  cases event with
  | message => cases other
  | agentRename eventId actor target name =>
    simp only [foreign, Bool.not_eq_true'] at other
    simp only [changeOf, ownedName_eq_none_of_foreign other, Option.bind_none]
  | agentNameSnapshot eventId actor target name source =>
    simp only [foreign, Bool.not_eq_true'] at other
    simp only [changeOf, ownedName_eq_none_of_foreign other, Option.bind_none]

/-- A foreign event is no baseline. -/
theorem baseline_foreign {event : NameTimelineEvent} (other : foreign identity event = true)
    (visible : List Text) (projection : NameProjection) :
    projection.baseline nfc nfkc identity visible event = projection := by
  rw [baseline_eq]
  cases based : baselineOf nfc nfkc identity visible event with
  | none => rfl
  | some base =>
    have change := (baselineOf_eq_some.mp based).1
    rw [changeOf_foreign other] at change
    cases change

/-- Where no snapshot names a rename of somebody else's, the events of others change nothing. -/
theorem projectNamesInOrder_foreign (participants : List NameParticipant)
    {events : List NameTimelineEvent} (distinct : (events.map (·.eventId)).Nodup)
    (named : ∀ event ∈ events, ∀ agent name sourceEventId,
      changeOf nfc nfkc (identityMap participants) agent event
      = some (.snapshot name (some sourceEventId)) → ∀ other ∈ events,
      other.eventId = sourceEventId → foreign (identityMap participants) other = false) :
    projectNamesInOrder nfc nfkc participants (events.filter fun event =>
      !foreign (identityMap participants) event)
      = projectNamesInOrder nfc nfkc participants events := by
  generalize own : (fun event => !foreign (identityMap participants) event) = isOwn
  -- Messages of others change nothing when the history is replayed.
  have replays : ∀ (rest : List NameTimelineEvent) (projection : NameProjection),
      (rest.filter isOwn).foldl (NameProjection.replay nfc nfkc (identityMap participants))
        projection
        = rest.foldl (NameProjection.replay nfc nfkc (identityMap participants)) projection := by
    intro rest
    induction rest with
    | nil => exact fun _ => rfl
    | cons event rest ih =>
      intro projection
      cases other : foreign (identityMap participants) event with
      | true => rw [List.filter_cons_of_neg (by simp [← own, other]), List.foldl_cons,
        replay_foreign other, ih]
      | false => rw [List.filter_cons_of_pos (by simp [← own, other]), List.foldl_cons,
        List.foldl_cons, ih]
  have step : ∀ event ∈ events, ∀ projection : NameProjection,
      projection.baseline nfc nfkc (identityMap participants)
        (visibleRenames (events.filter isOwn)) event
        = projection.baseline nfc nfkc (identityMap participants)
          (visibleRenames events) event := by
    -- A snapshot sees the rename it names in both lists or in neither.
    intro event inside projection
    have based : baselineOf nfc nfkc (identityMap participants)
      (visibleRenames (events.filter isOwn)) event
        = baselineOf nfc nfkc (identityMap participants) (visibleRenames events) event := by
      apply Option.ext
      rintro ⟨agent, name, sourceEventId⟩
      rw [baselineOf_eq_some, baselineOf_eq_some]
      apply and_congr_right
      intro change
      apply not_congr
      simp only [visibleRenames, List.mem_filterMap]
      constructor
      · rintro ⟨other, isOwn, same⟩
        exact ⟨other, List.mem_of_mem_filter isOwn, same⟩
      · rintro ⟨other, inside', same⟩
        refine ⟨other, List.mem_filter.mpr ⟨inside', ?_⟩, same⟩
        cases other with
        | message => cases same
        | agentNameSnapshot => cases same
        | agentRename eventId actor target name' =>
          cases same
          simp [← own, named event inside agent name sourceEventId change _ inside' rfl]
    rw [baseline_eq, baseline_eq, based]
  -- Nor do they when the baseline is made, step by step.
  have baselines : ∀ (rest : List NameTimelineEvent), rest ⊆ events → ∀ projection : NameProjection,
      (rest.filter isOwn).foldl
          (NameProjection.baseline nfc nfkc (identityMap participants)
            (visibleRenames (events.filter isOwn))) projection
        = rest.foldl (NameProjection.baseline nfc nfkc (identityMap participants)
          (visibleRenames events)) projection := by
    intro rest
    induction rest with
    | nil => exact fun _ _ => rfl
    | cons event rest ih =>
      intro inside projection
      have later := ih (List.subset_of_cons_subset inside)
      cases other : foreign (identityMap participants) event with
      | true => rw [List.filter_cons_of_neg (by simp [← own, other]), List.foldl_cons,
        baseline_foreign other, later]
      | false =>
        rw [List.filter_cons_of_pos (by simp [← own, other]), List.foldl_cons, List.foldl_cons,
          step event (inside List.mem_cons_self), later]
  have distinct' : ((events.filter isOwn).map (·.eventId)).Nodup :=
    distinct.sublist (List.filter_sublist.map _)
  unfold projectNamesInOrder
  simp only
  rw [replayAll_eq, replayAll_eq, (delivers_self distinct).1, (delivers_self distinct').1,
    baselines events (List.Subset.refl _), replays]

/-! ## Partial histories -/

/-- The first loop shows nothing. -/
theorem events_baselines (visible : List Text) (events : List NameTimelineEvent) :
    ∀ projection : NameProjection,
      (events.foldl (NameProjection.baseline nfc nfkc identity visible) projection).events
        = projection.events := by
  -- Setting starts shows no event.
  induction events with
  | nil => exact fun _ => rfl
  | cons event rest ih =>
    intro projection
    rw [List.foldl_cons, ih, baseline_eq]
    cases baselineOf nfc nfkc identity visible event with
    | none => rfl
    | some base =>
      simp only
      split
      · rfl
      · rfl

variable (nfc nfkc) in
/-- Where the replay of a list starts. -/
def startOf (participants : List NameParticipant) (events : List NameTimelineEvent) :
    NameProjection :=
  events.foldl (NameProjection.baseline nfc nfkc (identityMap participants) (visibleRenames events))
    ⟨[], initialNames participants, Map.empty⟩

/-- Names are projected by replaying all events, when no identifier comes twice. -/
theorem projectNamesInOrder_eq {participants : List NameParticipant}
    {events : List NameTimelineEvent} (distinct : (events.map (·.eventId)).Nodup) :
    projectNamesInOrder nfc nfkc participants events
      = events.foldl (NameProjection.replay nfc nfkc (identityMap participants))
        (startOf nfc nfkc participants events) := by
  rw [projectNamesInOrder, replayAll_eq, (delivers_self distinct).1]
  rfl

/-- At the start no author has been named. -/
theorem authorNames_startOf (participants : List NameParticipant)
    (events : List NameTimelineEvent) :
    (startOf nfc nfkc participants events).authorNames = [] := by
  rw [NameProjection.authorNames, startOf, events_baselines]
  rfl

/-- At the start the names are those before the part. -/
theorem started_startOf {participants : List NameParticipant}
    {before suffix : List NameTimelineEvent}
    (truthful : Truthful nfc nfkc (identityMap participants) (before ++ suffix))
    {participant : NameParticipant}
    (joined : (identityMap participants).get participant.participantId = some participant) :
    Started nfc nfkc (identityMap participants) participant before suffix suffix
      (startOf nfc nfkc participants suffix) := by
  apply started_baselines truthful joined suffix [] _ rfl
  refine .inr ⟨?_, rfl, nofun⟩
  rw [get_initialNames, joined]
  rfl

/-- A participant has a name from the start. -/
theorem isSome_started {participant : NameParticipant} {before suffix done : List NameTimelineEvent}
    {projection : NameProjection}
    (started : Started nfc nfkc identity participant before suffix done projection) :
    (projection.currentNames.get participant.participantId).isSome = true := by
  rcases started with inStep | ⟨initial, -, -⟩
  · rw [inStep]
    rfl
  · rw [initial]
    rfl

/-- A reader of the whole history is in step with it. -/
theorem inStep_whole {participants : List NameParticipant} {history : List NameTimelineEvent}
    (distinct : (history.map (·.eventId)).Nodup)
    (truthful : Truthful nfc nfkc (identityMap participants) history)
    {participant : NameParticipant}
    (joined : (identityMap participants).get participant.participantId = some participant) :
    InStep nfc nfkc (identityMap participants) participant []
      (startOf nfc nfkc participants history) :=
  @inStep_start nfc nfkc _ [] history distinct truthful participant joined _
    (@started_startOf nfc nfkc participants [] history truthful participant joined) (.inl rfl)

/-- What a truthful history's snapshots name was renamed by the agent's owner. -/
theorem own_of_named {before suffix : List NameTimelineEvent}
    (distinct : ((before ++ suffix).map (·.eventId)).Nodup)
    (truthful : Truthful nfc nfkc identity (before ++ suffix))
    (joined : ∀ agent event change, changeOf nfc nfkc identity agent event = some change →
      ∃ participant, identity.get agent = some participant) :
    ∀ event ∈ suffix, ∀ agent name sourceEventId,
      changeOf nfc nfkc identity agent event = some (.snapshot name (some sourceEventId)) →
      ∀ other ∈ suffix, other.eventId = sourceEventId → foreign identity other = false := by
  intro event inside agent name sourceEventId change other inside' same
  obtain ⟨ahead, after, split⟩ := List.append_of_mem inside
  obtain ⟨participant, known⟩ := joined agent event _ change
  obtain ⟨source, -⟩ :=
    truthful (before ++ ahead) event after agent participant name (some sourceEventId)
    (by rw [split]; simp) known change
  cases last : lastRename nfc nfkc identity agent (before ++ ahead) with
  | none =>
    rw [last] at source
    cases source
  | some renamed =>
    obtain ⟨eventId, name'⟩ := renamed
    rw [last] at source
    cases source
    obtain ⟨owned, before', renamed⟩ := exists_of_lastRename last
    -- Events are told apart by their identifiers, so the named one is the owner's rename.
    have inWhole : owned ∈ before ++ suffix := by
      rw [split, ← List.append_assoc]
      exact List.mem_append_left _ before'
    have sameEvent : other = owned :=
      List.inj_on_of_nodup_map distinct (List.mem_append_right _ inside') inWhole
        (same.trans (renameOf_visible renamed).1.symm)
    cases isForeign : foreign identity other with
    | false => rfl
    | true =>
      rw [← sameEvent, renameOf, changeOf_foreign isForeign] at renamed
      cases renamed

/-- An agent whose name changes has joined. -/
theorem joined_of_change {participants : List NameParticipant} {agent : Text}
    {event : NameTimelineEvent} {change : NameChange}
    (changed : changeOf nfc nfkc (identityMap participants) agent event = some change) :
    ∃ participant, (identityMap participants).get agent = some participant := by
  -- What is owned has a target that has joined.
  have owned : ∀ {actor target name : Text} {owned : NameParticipant × NameParticipant × Text},
      ownedName nfc nfkc (identityMap participants) actor target name = some owned →
      (identityMap participants).get owned.2.1.participantId = some owned.2.1 := by
    intro actor target name owned found
    unfold ownedName at found
    split at found
    · rename_i actor' target' checked _ isTarget _
      split at found
      · cases found
        rw [get_identityMap isTarget]
        exact isTarget
      · cases found
    · cases found
  -- Each kind of change goes through that check.
  cases event with
  | message => cases changed
  | agentRename eventId actor target name =>
    obtain ⟨⟨actor', target', checked⟩, found, same⟩ := Option.bind_eq_some_iff.mp changed
    simp only [Option.ite_none_right_eq_some] at same
    exact ⟨target', same.1 ▸ owned found⟩
  | agentNameSnapshot eventId actor target name source =>
    obtain ⟨⟨actor', target', checked⟩, found, same⟩ := Option.bind_eq_some_iff.mp changed
    simp only [Option.ite_none_right_eq_some] at same
    exact ⟨target', same.1 ▸ owned found⟩

/-- What a reader sees of a history is right for every name where each agent renamed before it has a
snapshot ahead of its next rename or no message ahead of it; and the final name of an agent is right
where the agent was not renamed before, or has a snapshot or a rename in the part. Copies of events
and events of others than the owner change nothing. -/
theorem names_of_part {participants : List NameParticipant}
    {before suffix whole part : List NameTimelineEvent}
    (distinct : ((before ++ suffix).map (·.eventId)).Nodup)
    (truthful : Truthful nfc nfkc (identityMap participants) (before ++ suffix))
    (delivers : Delivers (before ++ suffix) whole) (deliversPart : Delivers suffix part) :
    ((∀ agent participant, (identityMap participants).get agent = some participant →
        lastRename nfc nfkc (identityMap participants) agent before = none
          ∨ SnapshotAhead nfc nfkc (identityMap participants) agent suffix
          ∨ RenamedAhead nfc nfkc (identityMap participants) agent suffix) →
      (projectNamesInOrder nfc nfkc participants part).authorNames
        = (projectNamesInOrder nfc nfkc participants whole).authorNames.filter
            fun shown => shown.1 ∈ suffix.map (·.eventId))
    ∧ (∀ agent participant, (identityMap participants).get agent = some participant →
        (lastRename nfc nfkc (identityMap participants) agent before = none
          ∨ ∃ event ∈ suffix, isSnapshotOf nfc nfkc (identityMap participants) agent event = true
            ∨ (renameOf nfc nfkc (identityMap participants) agent event).isSome = true) →
      (projectNamesInOrder nfc nfkc participants part).currentNames.get agent
        = (projectNamesInOrder nfc nfkc participants whole).currentNames.get agent)
    ∧ projectNamesInOrder nfc nfkc participants whole = projectNamesInOrder nfc nfkc participants
        ((before ++ suffix).filter fun event => !foreign (identityMap participants) event)
    ∧ projectNamesInOrder nfc nfkc participants part = projectNamesInOrder nfc nfkc participants
        (suffix.filter fun event => !foreign (identityMap participants) event) := by
  -- The part has distinct identifiers as well.
  have distinctPart : (suffix.map (·.eventId)).Nodup := by
    rw [List.map_append, List.nodup_append] at distinct
    exact distinct.2.1
  -- Who has joined is found under the own identifier.
  have joinedKey : ∀ agent participant, (identityMap participants).get agent = some participant →
      (identityMap participants).get participant.participantId = some participant := by
    intro agent participant joined
    rw [get_identityMap joined]
    exact joined
  -- Events of others change nothing, in the whole as in the part.
  have own := own_of_named distinct truthful fun agent event change => joined_of_change
  have ownWhole := @own_of_named nfc nfkc _ [] (before ++ suffix) distinct truthful
    fun agent event change => joined_of_change
  -- What is delivered counts like the history itself.
  rw [projectNamesInOrder_delivered participants distinct delivers,
    projectNamesInOrder_delivered participants distinctPart deliversPart]
  refine ⟨?_, ?_, (projectNamesInOrder_foreign participants distinct ownWhole).symm,
    (projectNamesInOrder_foreign participants distinctPart own).symm⟩
  · intro covered
    -- Both histories are replayed from their starts.
    rw [projectNamesInOrder_eq distinct, projectNamesInOrder_eq distinctPart, List.foldl_append]
    obtain ⟨earlier, wholeStart, inBefore⟩ :=
      @authorNames_replays nfc nfkc (identityMap participants) before
      (startOf nfc nfkc participants (before ++ suffix))
    -- When the whole history reaches the part, every agent's name is in step.
    have wholeInStep :
      ∀ agent participant, (identityMap participants).get agent = some participant →
        InStep nfc nfkc (identityMap participants) participant before
          (before.foldl (NameProjection.replay nfc nfkc (identityMap participants))
            (startOf nfc nfkc participants (before ++ suffix))) := by
      intro agent participant joined
      have truthfulBefore : Truthful nfc nfkc (identityMap participants) before := by
        intro ahead event after agent participant name source split
        exact truthful ahead event (after ++ suffix) agent participant name source
          (by rw [split]; simp)
      exact inStep_replays truthfulBefore (joinedKey agent participant joined) before [] _ rfl
        (inStep_whole distinct truthful (joinedKey agent participant joined))
    -- The reader of the part starts in step as well, or meets a rename first.
    have partCovered :
      ∀ agent participant, (identityMap participants).get agent = some participant →
        ((startOf nfc nfkc participants suffix).currentNames.get agent).isSome = true
          ∧ (InStep nfc nfkc (identityMap participants) participant before
            (startOf nfc nfkc participants suffix)
            ∨ RenamedAhead nfc nfkc (identityMap participants) agent suffix) := by
      intro agent participant joined
      have key := get_identityMap joined
      subst key
      have started := started_startOf truthful joined
      refine ⟨isSome_started started, ?_⟩
      rcases covered participant.participantId participant joined with unrenamed | snapshot | ahead
      · exact .inl (inStep_start distinct truthful joined started (.inl unrenamed))
      · exact .inl (inStep_start distinct truthful joined started (.inr snapshot))
      · exact .inr ahead
    -- From there on both show the same names.
    obtain ⟨shown, inWhole, inPart⟩ :=
      authorNames_same truthful (fun agent participant => get_identityMap) suffix before
      _ _ rfl wholeInStep partCovered
    obtain ⟨shown', inPart', inSuffix⟩ :=
      @authorNames_replays nfc nfkc (identityMap participants) suffix
      (startOf nfc nfkc participants suffix)
    rw [inPart', List.append_cancel_left_eq] at inPart
    subst inPart
    rw [inWhole, inPart', wholeStart, authorNames_startOf, authorNames_startOf, List.nil_append,
      List.nil_append,
      List.filter_append]
    -- What the whole showed before does not belong to the part.
    have gone : earlier.filter (fun shown => decide (shown.1 ∈ suffix.map (·.eventId))) = [] := by
      apply List.filter_eq_nil_iff.mpr
      intro entry isEarlier
      simp only [decide_eq_true_eq]
      intro later
      rw [List.map_append, List.nodup_append] at distinct
      exact distinct.2.2 entry.1 (inBefore entry isEarlier) entry.1 later rfl
    have kept : shown'.filter (fun shown => decide (shown.1 ∈ suffix.map (·.eventId))) = shown' :=
      List.filter_eq_self.mpr fun entry isShown => decide_eq_true (inSuffix entry isShown)
    -- And all that the part showed does.
    rw [gone, kept, List.nil_append]
  -- The names at the end: both readers end in step.
  · intro agent participant joined covered
    have key := get_identityMap joined
    subst key
    rw [projectNamesInOrder_eq distinct, projectNamesInOrder_eq distinctPart]
    have whole' := inStep_replays truthful joined (before ++ suffix)
      [] _ rfl (inStep_whole distinct truthful joined)
    have started := started_startOf truthful joined
    have part' : InStep nfc nfkc (identityMap participants) participant (before ++ suffix)
        (suffix.foldl (NameProjection.replay nfc nfkc (identityMap participants))
          (startOf nfc nfkc participants suffix)) := by
      by_cases renamed : ∃ event ∈ suffix,
          (renameOf nfc nfkc (identityMap participants) participant.participantId event).isSome
            = true
      · -- The part's own rename puts the name in step.
        obtain ⟨event, inside, renamed⟩ := renamed
        obtain ⟨ahead, after, split⟩ := List.append_of_mem inside
        have known := @isSome_replays nfc nfkc (identityMap participants) _ ahead _
          (isSome_started started)
        have first := inStep_rename renamed (before ++ ahead) known
        have rest :=
          inStep_replays truthful joined after (before ++ ahead ++ [event]) _
          (by rw [split]; simp) first
        rw [split] at rest ⊢
        rw [List.foldl_append, List.foldl_cons]
        exact rest
      -- Without a rename of its own the part was in step from its start.
      · have unrenamed : ∀ event ∈ suffix,
            renameOf nfc nfkc (identityMap participants) participant.participantId event
              = none := by
          intro event inside
          cases isRename :
            renameOf nfc nfkc (identityMap participants) participant.participantId event with
          | none => rfl
          | some change => exact absurd ⟨event, inside, by rw [isRename]; rfl⟩ renamed
        apply inStep_replays truthful joined suffix before _ rfl
        apply inStep_start distinct truthful joined started
        rcases covered with none_ | ⟨event, inside, isSnapshot | isRename⟩
        · exact .inl none_
        · obtain ⟨ahead, after, split⟩ := List.append_of_mem inside
          exact .inr ⟨ahead, event, after, split, isSnapshot,
            fun other isAhead => unrenamed other (split ▸ List.mem_append_left _ isAhead)⟩
        · exact absurd ⟨event, inside, isRename⟩ renamed
    exact part'.trans whole'.symm

/-- A person and an agent of theirs. -/
def mayaAndCodex : List NameParticipant :=
  [⟨lit "maya", lit "o", .human, lit "Maya"⟩, ⟨lit "codex", lit "o", .agent, lit "Codex"⟩]

/-- The person calls the agent something. -/
def callsCodex (eventId name : String) : NameTimelineEvent :=
  .agentRename (lit eventId) (lit "maya") (lit "codex") (lit name)

/-- The person says what the agent is called since a rename. -/
def snapshotCodex (eventId name source : String) : NameTimelineEvent :=
  .agentNameSnapshot (lit eventId) (lit "maya") (lit "codex") (lit name) (some (lit source))

/-- A snapshot of the name in force is truthful. -/
private theorem truthful_snapshot {events : List NameTimelineEvent}
    (truthful : Truthful id id (identityMap mayaAndCodex) events) {eventId name source : String}
    (owned : ownedName id id (identityMap mayaAndCodex) (lit "maya") (lit "codex")
      (lit name) = some (⟨lit "maya", lit "o", .human, lit "Maya"⟩,
        ⟨lit "codex", lit "o", .agent, lit "Codex"⟩, lit name))
    (last : lastRename id id (identityMap mayaAndCodex)
      (lit "codex") events = some (lit source, lit name)) :
    Truthful id id (identityMap mayaAndCodex) (events ++ [snapshotCodex eventId name source]) := by
  apply truthful.concat
  intro agent participant name' source' joined change
  rw [snapshotCodex, changeOf, owned, Option.bind_some] at change
  simp only [Option.ite_none_right_eq_some, Option.some.injEq, NameChange.snapshot.injEq] at change
  obtain ⟨rfl, rfl, rfl⟩ := change
  have same := get_identityMap joined
  rw [nameAfter, same, last]
  exact ⟨rfl, rfl⟩

/-- A rename is truthful. -/
private theorem truthful_calls {events : List NameTimelineEvent}
    (truthful : Truthful id id (identityMap mayaAndCodex) events) (eventId name : String) :
    Truthful id id (identityMap mayaAndCodex) (events ++ [callsCodex eventId name]) := by
  apply truthful.concat
  intro agent participant name' source' joined change
  obtain ⟨⟨_, target, checked⟩, -, same⟩ := Option.bind_eq_some_iff.mp change
  simp only [Option.ite_none_right_eq_some, Option.some.injEq, reduceCtorEq, and_false] at same

/-- A message is truthful. -/
private theorem truthful_message {events : List NameTimelineEvent}
    (truthful : Truthful id id (identityMap mayaAndCodex) events) (eventId author : String) :
    Truthful id id (identityMap mayaAndCodex)
      (events ++ [NameTimelineEvent.message (lit eventId) (lit author)]) :=
  truthful.concat fun _ _ _ _ _ => nofun

/-- No events are truthful. -/
private theorem truthful_nil : Truthful id id (identityMap mayaAndCodex) [] := by
  intro before event after agent participant name source split
  simp at split

/-- Maya names the agent that she owns. -/
private theorem owned_codex :
    ownedName id id (identityMap mayaAndCodex) (lit "maya") (lit "codex") (lit "Dolan")
    = some (⟨lit "maya", lit "o", .human, lit "Maya"⟩, ⟨lit "codex", lit "o", .agent, lit "Codex"⟩,
      lit "Dolan") := by
  decide +kernel

/-- The rename before the boundary is nobody else's. -/
private theorem unrenamed_others {agent : Text} (other : agent ≠ lit "codex") :
    lastRename id id (identityMap mayaAndCodex) agent [callsCodex "r1" "Dolan"] = none := by
  apply lastRename_eq_none.mpr
  intro event inside
  rw [List.mem_singleton.mp inside]
  simp [renameOf, callsCodex, changeOf, owned_codex, Ne.symm other]

/-- What a reader sees who comes after the first rename: a message, the next rename, and a snapshot
that names it. -/
def lateSnapshot : List NameTimelineEvent :=
  [.message (lit "m") (lit "codex"), callsCodex "r2" "Scout", snapshotCodex "s" "Scout" "r2"]

/-- Such a reader is not shown the message under the agent's first name, though there is a snapshot
of the agent; and a reader who sees nothing after the rename is not shown the agent's name at the
end. -/
theorem names_of_late_snapshot :
    (([callsCodex "r1" "Dolan"] ++ lateSnapshot).map (·.eventId)).Nodup
      ∧ Truthful id id (identityMap mayaAndCodex) ([callsCodex "r1" "Dolan"] ++ lateSnapshot)
      ∧ (∀ agent,
        lastRename id id (identityMap mayaAndCodex) agent [callsCodex "r1" "Dolan"] ≠ none →
        ∃ event ∈ lateSnapshot, isSnapshotOf id id (identityMap mayaAndCodex) agent event = true)
      ∧ (projectNamesInOrder id id mayaAndCodex lateSnapshot).authorNames = [(lit "m", lit "Codex")]
      ∧ (projectNamesInOrder id id mayaAndCodex
        ([callsCodex "r1" "Dolan"] ++ lateSnapshot)).authorNames
        = [(lit "m", lit "Dolan")]
      ∧ (projectNamesInOrder id id mayaAndCodex []).currentNames.get (lit "codex")
        ≠ (projectNamesInOrder id id mayaAndCodex [callsCodex "r1" "Dolan"]).currentNames.get
          (lit "codex") := by
  refine ⟨by decide +kernel, ?_, ?_, by decide +kernel, by decide +kernel, by decide +kernel⟩
  · have first := truthful_message (truthful_calls truthful_nil "r1" "Dolan") "m" "codex"
    exact truthful_snapshot (truthful_calls first "r2" "Scout") (by decide +kernel)
      (by decide +kernel)
  · intro agent renamed
    have same : agent = lit "codex" := by
      by_contra other
      exact renamed (unrenamed_others other)
    subst same
    refine ⟨snapshotCodex "s" "Scout" "r2", ?_, by decide +kernel⟩
    simp [lateSnapshot]

/-- The snapshot names the author of the message before it. -/
theorem names_of_part_snapshot :
    (projectNamesInOrder id id mayaAndCodex [.message (lit "m") (lit "codex"),
      snapshotCodex "s" "Dolan" "r1"]).authorNames
      = [(lit "m", lit "Dolan")] := by
  have truthful : Truthful id id (identityMap mayaAndCodex)
      ([callsCodex "r1" "Dolan"] ++ [NameTimelineEvent.message (lit "m") (lit "codex"),
        snapshotCodex "s" "Dolan" "r1"]) :=
    truthful_snapshot (truthful_message (truthful_calls truthful_nil "r1" "Dolan") "m" "codex")
      (by decide +kernel)
      (by decide +kernel)
  rw [(names_of_part (by decide +kernel) truthful (delivers_self (by decide +kernel))
    (delivers_self (by decide +kernel))).1]
  · decide +kernel
  · intro agent participant joined
    -- The agent has a snapshot in the part; all others were never renamed.
    by_cases same : agent = lit "codex"
    · subst same
      exact .inr (.inl ⟨[.message (lit "m") (lit "codex")], snapshotCodex "s" "Dolan" "r1", [],
        rfl, by decide +kernel,
        by decide +kernel⟩)
    · exact .inl (unrenamed_others same)

end

end Khala
