import Khala.Web.OwnerEditQueue

/-! What the homeserver holds when all calls have returned. -/

namespace Khala.OwnerEdits

open Js Decode

/-- What a call saves under an agent, if it saves anything. -/
def Call.sets (type : DataType) (agent : Text) (call : Call) : Option (Option Json) :=
  match type with
  | .modeLocks => (call.lock agent).map lockValue
  | .idleMute => (call.timeout agent).map timeoutValue
  | .archived => none

/-- The call has nothing of the type still to save; the save may be under way. -/
def Running.Begun (type : DataType) (running : Running) : Prop :=
  ∀ request ∈ running.requests.tail, request.target ≠ some (.data type)

/-- Whether a call that saves an agent's lock or timeout can read the synced copy: no save of the
kind is under way, the copy has of all other agents what the homeserver has, and no call made later
has begun to save the same agent's. -/
def Current (tab : Tab) (index : Nat) (call : Call) (type : DataType) : Prop :=
  type ≠ .archived → (∀ write ∈ tab.flying, write.target ≠ .data type)
    ∧ (∀ other, call.sets type other = none →
      (tab.synced type).get other = (tab.data type).get other)
    ∧ ∀ (agent : Text) (later : Nat) (running : Running), index < later →
      tab.running[later]? = some running →
      call.sets type agent ≠ none → running.call.sets type agent ≠ none → ¬ running.Begun type

/-- What the homeserver will hold has, for each agent, the value of the last call that has begun to
save it. -/
structure Latest (tab : Tab) (type : DataType) : Prop where
  sole : tab.Sole (.data type)
  values : ∀ {index : Nat} {running : Running} {agent : Text} {value : Option Json},
    tab.running[index]? = some running →
    running.call.sets type agent = some value → running.Begun type →
    (∀ {later : Nat} {other : Running}, index < later → tab.running[later]? = some other →
      other.call.sets type agent ≠ none → ¬ other.Begun type) →
    (tab.will (.data type)).get agent = value

/-! ## Requests -/

/-- A value that is saved is there, and the others are as they were. -/
theorem get_save (userId other : Text) (value : Option Json) (content : Content) :
    (save userId value content).get other = if userId = other then value
      else content.get other := by
  cases value with
  | none =>
    rw [save, Map.get_delete]
    by_cases same : userId = other
    · rw [if_pos same, if_pos same.symm]
    · rw [if_neg same, if_neg (Ne.symm same)]
  | some value =>
    rw [save, Map.get_set]
    by_cases same : userId = other
    · rw [if_pos same, if_pos same.symm]
    · rw [if_neg same, if_neg (Ne.symm same)]

section

variable {toLowerCase : Text → Text} {call : Call} {requests : List Request}

/-- What saves account data of the other two types saves one agent's. -/
theorem Call.saves (asks : call.requests toLowerCase = .ok requests) {type : DataType}
    (differs : type ≠ .archived) {change : Content → Content}
    (inside : .setRoomAccountData type change ∈ requests) :
    ∃ userId value, change = save userId value ∧ ∀ agent, call.sets type agent = if userId = agent
      then some value else none := by
  -- Only the listening mode asks for such data, under the user that it is about.
  cases call with
  | setOwnChannelName others name =>
    simp only [Call.requests, OwnerEdits.setOwnChannelName] at asks
    split at asks
    · cases asks
    -- A name goes to the member, as do the colours.
    · split at asks
      · cases asks
      · split at asks
        · cases asks
        · obtain rfl := Except.ok.inj asks
          simp at inside
  | setOwnChannelColors colors =>
    simp only [Call.requests, OwnerEdits.setOwnChannelColors] at asks
    split at asks
    · cases asks
    · obtain rfl := Except.ok.inj asks
      simp at inside
  | setOwnArchived own archived agents =>
    simp only [Call.requests, OwnerEdits.setOwnArchived] at asks
    split at asks
    · cases asks
    · split at asks
      · cases asks
      · obtain rfl := Except.ok.inj asks
        -- The archive is data of its own kind, and the other requests are no data.
        simp only [List.mem_append, List.mem_singleton] at inside
        rcases inside with (archive | notice) | legacy
        · obtain ⟨rfl, -⟩ := Request.setRoomAccountData.inj archive
          exact absurd rfl differs
        · split at notice <;> simp at notice
        · split at legacy <;> simp at legacy
  | sendListeningMode encrypted userId locked idleMuteMin =>
    simp only [Call.requests, OwnerEdits.sendListeningMode] at asks
    split at asks
    · cases asks
    · obtain rfl := Except.ok.inj asks
      simp only [List.mem_append, List.mem_singleton, Option.mem_toList, Option.map_eq_some_iff]
        at inside
      -- The lock and the time are saved, each under its own type.
      rcases inside with (⟨locked, rfl, same⟩ | ⟨minutes, rfl, same⟩) | notice
      · obtain ⟨rfl, rfl⟩ := Request.setRoomAccountData.inj same
        refine ⟨userId, _, rfl, fun agent => ?_⟩
        simp only [Call.sets, Call.lock]
        split <;> rfl
      · obtain ⟨rfl, rfl⟩ := Request.setRoomAccountData.inj same
        refine ⟨userId, _, rfl, fun agent => ?_⟩
        simp only [Call.sets, Call.timeout]
        split <;> rfl
      · cases notice

/-- What a call saves for an agent is among its requests. -/
theorem Call.request_of_sets (asks : call.requests toLowerCase = .ok requests) {type : DataType}
    {agent : Text} (sets : call.sets type agent ≠ none) :
    ∃ change, .setRoomAccountData type change ∈ requests := by
  -- Only a call of the listening mode sets a value.
  cases call with
  | setOwnChannelName others name =>
    cases type <;> simp [Call.sets, Call.lock, Call.timeout] at sets
  | setOwnChannelColors colors => cases type <;> simp [Call.sets, Call.lock, Call.timeout] at sets
  | setOwnArchived own archived agents =>
    cases type <;> simp [Call.sets, Call.lock, Call.timeout] at sets
  -- What it sets is what it asks for.
  | sendListeningMode encrypted userId locked idleMuteMin =>
    simp only [Call.requests, OwnerEdits.sendListeningMode] at asks
    split at asks
    · cases asks
    · obtain rfl := Except.ok.inj asks
      cases type with
      | archived => exact absurd rfl sets
      | modeLocks =>
        cases locked with
        | none => simp [Call.sets, Call.lock] at sets
        | some locked => exact ⟨save userId (lockValue locked), by simp⟩
      | idleMute =>
        cases idleMuteMin with
        | none => simp [Call.sets, Call.timeout] at sets
        | some minutes => exact ⟨save userId (timeoutValue minutes), by simp⟩

/-- A call that sets the key of the member event asks for that alone, and all others leave the key
as it is. -/
def Governs (toLowerCase : Text → Text) (key : Text) (sets : Call → Option Json) : Prop :=
  key ≠ lit "membership" ∧ ∀ (call : Call) (requests : List Request),
    call.requests toLowerCase = .ok requests →
    (∀ change, .updateOwnMember change ∈ requests → ∀ content,
      (change content).get key = (sets call).or (content.get key))
      ∧ (sets call ≠ none → ∃ change, requests = [.updateOwnMember change])

/-- What the call makes of the member event, by the key that it sets or deletes. -/
theorem Call.updates (asks : call.requests toLowerCase = .ok requests) :
    (∃ name, call.name = some name ∧ call.colors = none
        ∧ requests = [.updateOwnMember fun content =>
          content.set (lit "displayname") (.string name)])
      ∨ (∃ colors, call.name = none ∧ call.colors = some colors
        ∧ requests = [.updateOwnMember fun content => content.set channelColorsMemberKey colors])
      ∨ (call.name = none ∧ call.colors = none
        ∧ ∀ change, .updateOwnMember change ∈ requests → change = fun content =>
          content.delete archivedMemberKey) := by
  -- The call names the owner, sets the colours, or only deletes what is archived.
  cases call with
  | setOwnChannelName others name =>
    refine .inl ?_
    simp only [Call.requests, OwnerEdits.setOwnChannelName] at asks
    split at asks
    · cases asks
    -- The name is accepted, so the request writes it.
    · rename_i checked isName
      split at asks
      · cases asks
      · split at asks
        · cases asks
        · exact ⟨checked, by rw [Call.name, isName]; rfl, rfl, (Except.ok.inj asks).symm⟩
  | setOwnChannelColors colors =>
    refine .inr (.inl ?_)
    simp only [Call.requests, OwnerEdits.setOwnChannelColors] at asks
    split at asks
    · cases asks
    · rename_i checked isColors
      exact ⟨checked, rfl, isColors, (Except.ok.inj asks).symm⟩
  | setOwnArchived own archived agents =>
    refine .inr (.inr ⟨rfl, rfl, fun change inside => ?_⟩)
    simp only [Call.requests, OwnerEdits.setOwnArchived] at asks
    split at asks
    · cases asks
    · split at asks
      · cases asks
      · obtain rfl := Except.ok.inj asks
        simp only [List.mem_append, List.mem_singleton] at inside
        -- The archive is data, and the member only loses the old mark.
        rcases inside with (archive | notice) | legacy
        · cases archive
        · split at notice <;> simp at notice
        · split at legacy
          · exact Request.updateOwnMember.inj (List.mem_singleton.mp legacy)
          · simp at legacy
  | sendListeningMode encrypted userId locked idleMuteMin =>
    refine .inr (.inr ⟨rfl, rfl, fun change inside => ?_⟩)
    simp only [Call.requests, OwnerEdits.sendListeningMode] at asks
    split at asks
    · cases asks
    · obtain rfl := Except.ok.inj asks
      simp at inside

/-- The name is governed by the last call that sets it. -/
theorem governs_name (toLowerCase : Text → Text) :
    Governs toLowerCase (lit "displayname") fun call => call.name.map .string := by
  refine ⟨by decide, fun call requests asks => ?_⟩
  -- The name is written by its own call, and by no other.
  rcases Call.updates asks
    with ⟨name, isName, -, rfl⟩ | ⟨colors, noName, -, rfl⟩ | ⟨noName, -, deletes⟩
  · refine ⟨fun change inside content => ?_, fun _ => ⟨_, rfl⟩⟩
    obtain rfl := Request.updateOwnMember.inj (List.mem_singleton.mp inside)
    simp [isName]
  · refine ⟨fun change inside content => ?_, fun some_ => absurd (by simp [noName]) some_⟩
    obtain rfl := Request.updateOwnMember.inj (List.mem_singleton.mp inside)
    rw [Map.get_set_of_ne (by decide)]
    simp [noName]
  · refine ⟨fun change inside content => ?_, fun some_ => absurd (by simp [noName]) some_⟩
    rw [deletes change inside, Map.get_delete, if_neg (by decide)]
    simp [noName]

/-- The colours are governed by the last call that sets them. -/
theorem governs_colors (toLowerCase : Text → Text) :
    Governs toLowerCase channelColorsMemberKey Call.colors := by
  refine ⟨by decide, fun call requests asks => ?_⟩
  -- The colours are written by their own call, and by no other.
  rcases Call.updates asks
    with ⟨name, -, noColors, rfl⟩ | ⟨colors, -, isColors, rfl⟩ | ⟨-, noColors, deletes⟩
  · refine ⟨fun change inside content => ?_, fun some_ => absurd noColors some_⟩
    obtain rfl := Request.updateOwnMember.inj (List.mem_singleton.mp inside)
    rw [Map.get_set_of_ne (by decide)]
    simp [noColors]
  · refine ⟨fun change inside content => ?_, fun _ => ⟨_, rfl⟩⟩
    obtain rfl := Request.updateOwnMember.inj (List.mem_singleton.mp inside)
    simp [isColors]
  · refine ⟨fun change inside content => ?_, fun some_ => absurd noColors some_⟩
    rw [deletes change inside, Map.get_delete, if_neg (by decide)]
    simp [noColors]

end

/-! ## Saves -/

section

variable {tab : Tab} {index : Nat} {running : Running} {type : DataType}

/-- Nothing that a call changes about itself but what it has begun matters to the values. -/
theorem Latest.congr (latest : Latest tab type) {tab' : Tab} (sole : tab'.Sole (.data type))
    (will : tab'.will (.data type) = tab.will (.data type))
    (same : ∀ {other : Nat} {entry : Running}, tab'.running[other]? = some entry → ∃ entry',
      tab.running[other]? = some entry' ∧ entry'.call = entry.call ∧ ∀ agent,
      entry.call.sets type agent ≠ none → (entry'.Begun type ↔ entry.Begun type))
    (back : ∀ {other : Nat} {entry : Running}, tab.running[other]? = some entry → ∃ entry',
      tab'.running[other]? = some entry') :
    Latest tab' type := by
  refine ⟨sole, fun {other entry agent value} is sets begun last => ?_⟩
  obtain ⟨entry', is', call, begun'⟩ := same is
  rw [will]
  refine latest.values is' (by rw [call]; exact sets)
    ((begun' agent (by rw [sets]; exact Option.some_ne_none _)).mpr begun)
    fun {later entry''} less there sets' => ?_
  obtain ⟨new, isNew⟩ := back there
  obtain ⟨old, isOld, call', begun''⟩ := same isNew
  obtain rfl := Option.some.inj (isOld.symm.trans there)
  rw [call'] at sets'
  exact fun begins => last less isNew sets' ((begun'' agent sets').mp begins)

/-- A call that goes on to another request has begun what it had begun before. -/
theorem Latest.next (latest : Latest tab type) (control : Control tab)
    (is : tab.running[index]? = some running) {rest : List Request}
    (requests : running.requests = .send :: rest) (other : saving rest ≠ some type) :
    Latest (tab.goOn index running) type := by
  -- The next request is about other data.
  have begun : ∀ request ∈ rest.head?, request.target ≠ some (.data type) := by
    intro request isHead target
    cases rest with
    | nil => cases isHead
    | cons front behind =>
      obtain rfl := Option.some.inj isHead
      cases front with
      | setRoomAccountData type' change =>
        simp only [Request.target, Option.some.injEq, Target.data.injEq] at target
        exact other (by rw [target]; rfl)
      | updateOwnMember change => cases target
      | send => cases target
  -- The call has moved on, and the others are as they were.
  have running_ : ∀ entry : Nat, (tab.goOn index running).running[entry]?
      = (tab.update index { running with requests := rest,
                                         progress :=
                                         (tab.launch index rest).2 }).running[entry]? := by
    intro entry
    rw [Tab.goOn, control.leave is requests, requests, List.tail_cons]
    cases rest with
    | nil => rfl
    | cons front behind => cases front <;> rfl
  -- Another target's will does not depend on what is sent now.
  have will : (tab.goOn index running).will (.data type) = tab.will (.data type)
    ∧ (tab.Sole (.data type) → (tab.goOn index running).Sole (.data type)) := by
    rw [Tab.goOn, control.leave is requests, requests, List.tail_cons]
    cases rest with
    | nil => exact ⟨rfl, id⟩
    | cons front behind =>
      cases front with
      | send => exact ⟨rfl, id⟩
      | updateOwnMember change => exact ⟨rfl, id⟩
      -- What is sent is about other data, by assumption.
      | setRoomAccountData type' change =>
        have differs : ¬ type' = type := fun same => other (by rw [same]; rfl)
        refine ⟨?_, fun sole => ?_⟩
        · simp [Tab.will, Tab.launch, Tab.update, Tab.held, List.find?_append, differs]
        · simpa [Tab.Sole, Tab.launch, Tab.update, List.filter_append, differs] using sole
  -- So the latest values carry over, call by call.
  refine latest.congr (will.2 latest.sole) will.1 (fun {entry new} there => ?_)
    fun {entry old} there => ?_
  · rw [running_] at there
    by_cases same : entry = index
    · subst same
      rw [running_update_self is] at there
      obtain rfl := Option.some.inj there
      -- A call has begun its data when none of its requests is about it.
      refine ⟨running, is, rfl, fun _ _ =>
        ⟨fun all request inside => ?_, fun all request inside => ?_⟩⟩
      · exact all request (by rw [requests]; exact List.mem_of_mem_tail inside)
      · rw [requests, List.tail_cons] at inside
        cases rest with
        | nil => cases inside
        | cons front behind =>
          rcases List.mem_cons.mp inside with rfl | later
          · exact begun _ rfl
          · exact all request later
    · rw [running_update_of_ne same] at there
      exact ⟨new, there, rfl, fun _ _ => Iff.rfl⟩
  -- The calls are the same, in the same places.
  · rw [running_, running_update]
    split
    · exact ⟨_, by rw [there, Option.map_some]⟩
    · exact ⟨old, there⟩

/-- A step that leaves calls and what is still to save as they are leaves the values as they are. -/
theorem Latest.update (latest : Latest tab type) (is : tab.running[index]? = some running)
    {running' : Running} (call : running'.call = running.call)
    (requests : running'.requests.tail = running.requests.tail) {tab' : Tab}
    (running_ : tab'.running = (tab.update index running').running) (sole : tab'.Sole (.data type))
    (will : tab'.will (.data type) = tab.will (.data type)) : Latest tab' type := by
  -- The call in its place has other requests, of which only the first is gone.
  refine latest.congr sole will (fun {other entry} there => ?_) fun {other entry} there => ?_
  · rw [running_] at there
    by_cases same : other = index
    · subst same
      obtain rfl := Option.some.inj ((running_update_self is _).symm.trans there)
      exact ⟨running, is, call.symm, fun _ _ => by rw [Running.Begun, Running.Begun, requests]⟩
    · rw [running_update_of_ne same] at there
      exact ⟨entry, there, rfl, fun _ _ => Iff.rfl⟩
  -- No call is new.
  · rw [running_, running_update]
    split
    · exact ⟨_, by rw [there, Option.map_some]⟩
    · exact ⟨entry, there⟩

/-- A call that is parked leaves the latest value. -/
theorem Latest.park (latest : Latest tab type) (is : tab.running[index]? = some running) :
    Latest (tab.park index running) type :=
  @Latest.update tab index running type latest is running.park rfl rfl _ rfl latest.sole rfl

/-- A call that reads leaves the latest value. -/
theorem Latest.read (latest : Latest tab type) {turn : Turn}
    (is : tab.running[turn.index]? = some running) (joined : isJoined tab.member = true) :
    Latest (tab.read turn running) type := by
  refine @Latest.update tab turn.index running type latest is { running with progress := .sent }
    rfl rfl _ ?_ ?_ ?_
  · rw [Tab.read, if_pos joined]
    rfl
  · rw [Tab.read, if_pos joined]
    simpa [Tab.Sole, Tab.update, List.filter_append] using latest.sole
  · rw [Tab.read, if_pos joined]
    simp [Tab.will, Tab.update, Tab.held, List.find?_append]

/-- A write that returns leaves the latest value. -/
theorem Latest.receive (latest : Latest tab type) {before after : List Write} {write : Write}
    (flying : tab.flying = before ++ write :: after)
    (is : tab.running[write.index]? = some running) :
    Latest (tab.receive before after write running) type := by
  refine @Latest.update tab write.index running type latest is { running with
    progress := .received } rfl rfl _ ?_ ?_
    (will_receive flying latest.sole)
  · rw [Tab.receive]
    cases write.target <;> rfl
  · have fewer : (before ++ after).Sublist tab.flying := by
      rw [flying]
      exact (List.Sublist.refl before).append (List.sublist_cons_self write after)
    exact Nat.le_trans (fewer.filter _).length_le latest.sole

/-- A call that is made has not begun to save what it saves. -/
theorem Latest.await (latest : Latest tab type) {call : Call} {requests : List Request}
    (waits : ∀ agent, call.sets type agent ≠ none → ∃ change,
      .setRoomAccountData type change ∈ requests) :
    Latest (tab.await call requests) type := by
  refine ⟨latest.sole, fun {other entry agent value} is sets begun last => ?_⟩
  have old : ∀ {later : Nat} {entry' : Running}, tab.running[later]? = some entry' →
    (tab.await call requests).running[later]? = some entry' := by
    intro later entry' there
    rw [Tab.await, List.getElem?_append_left (List.getElem?_eq_some_iff.mp there).1, there]
  rw [Tab.await, List.getElem?_append] at is
  split at is
  · exact latest.values is sets begun fun less there => last less (old there)
  · obtain rfl := List.mem_singleton.mp (List.mem_of_getElem? is)
    obtain ⟨change, inside⟩ := waits agent (by rw [sets]; exact Option.some_ne_none _)
    exact absurd rfl (begun _ inside)

/-- A save that begins with a current copy changes the one agent's value and no other. -/
theorem Latest.save (latest : Latest tab type) (control : Control tab)
    (is : tab.running[index]? = some running) {userId : Text} {value : Option Json}
    {rest : List Request}
    (requests : running.requests = .send :: .setRoomAccountData type (save userId value) :: rest)
    (sets : ∀ agent, running.call.sets type agent = if userId = agent then some value else none)
    (once : ∀ request ∈ rest, request.target ≠ some (.data type)) (differs : type ≠ .archived)
    (current : Current tab index running.call type) :
    Latest (tab.goOn index running) type := by
  -- At this moment nothing is under way for the data.
  obtain ⟨clear, agrees, noLater⟩ := current differs
  have none_ : ∀ write ∈ tab.flying, ¬ decide (write.target = .data type) = true :=
    fun write inside target =>
    clear write inside (of_decide_eq_true target)
  -- So what the tab wants is what it holds.
  have old : tab.will (.data type) = tab.data type := by
    rw [Tab.will, List.find?_eq_none.mpr none_]
    rfl
  rw [Tab.goOn, control.leave is requests, requests, List.tail_cons]
  refine ⟨?_, fun {other entry agent value'} is' sets' begun last => ?_⟩
  · simp only [Tab.Sole, Tab.launch, Tab.update, List.filter_append, List.filter_eq_nil_iff.mpr none_]
    simp
  -- The write puts this value into the content as synced.
  have will : (((tab.launch index (.setRoomAccountData type (OwnerEdits.save userId value) :: rest)).1.update index
      { running with requests := .setRoomAccountData type (OwnerEdits.save userId value) :: rest, progress := .sent }).will (.data type))
      = OwnerEdits.save userId value (tab.synced type) := by
    simp [Tab.will, Tab.launch, Tab.update, List.find?_append, List.find?_eq_none.mpr none_]
  refine Eq.trans (congrArg (fun content : Content => content.get agent) will) ?_
  have self := @running_update_self tab index running is
  rw [get_save]
  -- The agent is the one that is written, or another.
  by_cases own : userId = agent
  · rw [if_pos own]
    -- A later call that sets the agent's value has not begun, and an earlier one is not the last.
    rcases Nat.lt_trichotomy other index with earlier | same | later
    · refine absurd (fun request inside => once request inside) (last earlier (self _) ?_)
      rw [sets, if_pos own]
      exact Option.some_ne_none _
    · subst same
      obtain rfl := Option.some.inj ((self _).symm.trans is')
      rw [sets, if_pos own] at sets'
      exact Option.some.inj sets'
    -- The later call has begun, though the condition excludes it.
    · have there := (running_update_of_ne (Nat.ne_of_gt later) _).symm.trans is'
      refine absurd begun
        (noLater agent other entry later there ?_ (by rw [sets']; exact Option.some_ne_none _))
      rw [sets, if_pos own]
      exact Option.some_ne_none _
  -- Another agent's value is that of the call that set it last.
  · have notIndex : other ≠ index := by
      rintro rfl
      obtain rfl := Option.some.inj ((self _).symm.trans is')
      rw [sets, if_neg own] at sets'
      cases sets'
    -- The synced content agrees for this agent with what the tab holds.
    rw [if_neg own, agrees agent (by rw [sets, if_neg own]), ← old]
    refine latest.values ((running_update_of_ne notIndex _).symm.trans is') sets' begun
      fun {later entry'} less there sets'' => ?_
    have notIndex' : later ≠ index := by
      rintro rfl
      rw [Option.some.inj (there.symm.trans is), sets, if_neg own] at sets''
      exact sets'' rfl
    exact last less ((running_update_of_ne notIndex' _).trans there) sets''

end

/-! ## Runs -/

/-- A call saves each kind of account data at most once. -/
theorem Call.once {toLowerCase : Text → Text} {call : Call} {requests : List Request}
    (asks : call.requests toLowerCase = .ok requests) (type : DataType) :
    (requests.filter (·.target = some (.data type))).length ≤ 1 := by
  -- Each call asks at most once for data of a type.
  cases call with
  | setOwnChannelName others name =>
    simp only [Call.requests, OwnerEdits.setOwnChannelName] at asks
    split at asks
    · cases asks
    · split at asks
      · cases asks
      · split at asks
        · cases asks
        · obtain rfl := Except.ok.inj asks
          simp [Request.target]
  | setOwnChannelColors colors =>
    simp only [Call.requests, OwnerEdits.setOwnChannelColors] at asks
    split at asks
    · cases asks
    · obtain rfl := Except.ok.inj asks
      simp [Request.target]
  | setOwnArchived own archived agents =>
    simp only [Call.requests, OwnerEdits.setOwnArchived] at asks
    split at asks
    · cases asks
    · rename_i content
      split at asks
      · cases asks
      · obtain rfl := Except.ok.inj asks
        generalize agents.isEmpty = silent
        generalize memberArchived content = legacy
        -- All the cases are finite, and each is counted.
        cases type <;> cases silent <;> cases legacy <;> simp [Request.target]
  | sendListeningMode encrypted userId locked idleMuteMin =>
    simp only [Call.requests, OwnerEdits.sendListeningMode] at asks
    split at asks
    · cases asks
    · obtain rfl := Except.ok.inj asks
      cases type <;> cases locked <;> cases idleMuteMin <;> simp [Request.target]

/-- Some call has failed. -/
def Tab.Failed (tab : Tab) : Prop := ∃ running ∈ tab.running, running.failed = true

/-- What holds as long as no call has failed. -/
structure Good (toLowerCase : Text → Text) (tab : Tab) : Prop where
  control : Control tab
  suffix : ∀ {index : Nat} {running : Running}, tab.running[index]? = some running →
    ∃ requests, running.call.requests toLowerCase = .ok requests ∧ running.requests <:+ requests
  member : ∀ {key : Text} {sets : Call → Option Json}, Governs toLowerCase key sets → ∀ value,
    lastOf sets tab = some value →
    tab.memberWill.get key = some value

section

variable {toLowerCase : Text → Text} {met : Tab → Nat → Call → DataType → Prop} {tab tab' : Tab}
    {index : Nat} {running : Running}

/-- A tab one of whose calls has failed has failed. -/
theorem failed_update (is : tab.running[index]? = some running) {running' : Running}
    (failed : running'.failed = true) :
    (tab.update index running').Failed :=
  ⟨running', List.mem_of_getElem? (running_update_self is running'), failed⟩

/-- A tab that has failed has failed for good. -/
theorem Tab.Failed.update (failed : tab.Failed) (is : tab.running[index]? = some running)
    {running' : Running} (kept : running.failed = true → running'.failed = true) :
    (tab.update index running').Failed := by
  obtain ⟨entry, inside, has⟩ := failed
  obtain ⟨other, there⟩ := List.getElem?_of_mem inside
  by_cases same : other = index
  · subst same
    obtain rfl := Option.some.inj (is.symm.trans there)
    exact failed_update is (kept has)
  · exact ⟨entry, List.mem_of_getElem? ((running_update_of_ne same running').trans there), has⟩

/-- Launching requests leaves the calls. -/
theorem launch_running (tab : Tab) (index : Nat) (requests : List Request) :
    (tab.launch index requests).1.running = tab.running := by
  cases requests with
  | nil => rfl
  | cons request _ => cases request <;> rfl

/-- A call that goes on has one request less. -/
theorem goOn_running (tab : Tab) (index : Nat) (running : Running) :
    ∃ running', running'.call = running.call
    ∧ running'.failed = running.failed ∧ running'.requests = running.requests.tail
    ∧ (tab.goOn index running).running = (tab.update index running').running := by
  refine ⟨{ running with requests := running.requests.tail,
                         progress := ((tab.leave index).launch index running.requests.tail).2 },
                         rfl, rfl, rfl, ?_⟩
  simp only [Tab.goOn, Tab.update, launch_running]
  rfl

/-- A write that returns lets its call go on. -/
theorem receive_running (tab : Tab) (before after : List Write) (write : Write)
    (running : Running) :
    (tab.receive before after write running).running
      = (tab.update write.index { running with progress := .received }).running := by
  rw [Tab.receive]
  cases write.target <;> rfl

/-- A call that has failed stays so. -/
theorem Tab.Failed.step (failed : tab.Failed) (step : Step toLowerCase met tab tab') :
    tab'.Failed := by
  -- A call that has failed stays so, whatever the step does to others.
  cases step with
  | begins call _ =>
    obtain ⟨entry, inside, has⟩ := failed
    rw [Tab.begin]
    split
    · exact ⟨entry, List.mem_append_left _ inside, has⟩
    · exact ⟨entry, List.mem_append_left _ inside, has⟩
  | reads _ _ is =>
    rw [Tab.read]
    split
    · exact failed.update is id
    · exact failed_update is rfl
  -- The answer changes the call's progress, and not that it failed.
  | @receives before after write running _ is =>
    have := @Tab.Failed.update tab write.index running failed is { running with
      progress := .received } id
    rwa [Tab.Failed, ← receive_running tab before after write running] at this
  | @returns index running is _ _ _ _ =>
    obtain ⟨running', -, same, -, running_⟩ := goOn_running tab index running
    have := @Tab.Failed.update tab index running failed is running' (same ▸ id)
    rwa [Tab.Failed, ← running_] at this
  | fails is _ _ => exact failed_update is rfl
  | syncs _ => exact failed

/-! ### Member events -/

/-- Updating a call leaves the last value set. -/
theorem lastOf_update {α : Type} (sets : Call → Option α) (is : tab.running[index]? = some running)
    {running' : Running} (call : running'.call = running.call) {tab' : Tab}
    (running_ : tab'.running = (tab.update index running').running) :
    lastOf sets tab' = lastOf sets tab := by
  have calls : tab'.running.map (·.call) = tab.running.map (·.call) := by
    refine List.ext_getElem? fun other => ?_
    rw [List.getElem?_map, List.getElem?_map, running_, running_update]
    split
    · rename_i same
      rw [← same, is, Option.map_some, Option.map_some, Option.map_some, call]
    · rfl
  have general : ∀ running : List Running,
    running.filterMap (sets ·.call) = (running.map (·.call)).filterMap sets := fun running => by
    rw [List.filterMap_map]
    rfl
  rw [lastOf, lastOf, general, general, calls]

/-- A call that begins sets the last value, if it sets one. -/
theorem lastOf_await {α : Type} (sets : Call → Option α) (call : Call) (requests : List Request) :
    lastOf sets (tab.await call requests) = (sets call).or (lastOf sets tab) := by
  rw [lastOf, lastOf, Tab.await, List.filterMap_append]
  cases value : sets call with
  | none => simp [value]
  | some value => simp [value]

/-- What a request makes of a key that its call does not set. -/
theorem get_applied {key : Text} {sets : Call → Option Json}
    (governs : Governs toLowerCase key sets) {call : Call} {requests : List Request}
    (asks : call.requests toLowerCase = .ok requests) {rest : List Request}
    (suffix : rest <:+ requests) (content : Content) :
    (applied rest content).get key = (sets call).or (content.get key)
      ∨ (applied rest content = content) := by
  cases rest with
  | nil => exact .inr rfl
  | cons request behind =>
    cases request with
    | setRoomAccountData type change => exact .inr rfl
    | send => exact .inr rfl
    | updateOwnMember change =>
      refine .inl ?_
      rw [applied, Map.get_set_of_ne governs.1]
      exact (governs.2 call requests asks).1 change (suffix.subset List.mem_cons_self) content

/-- A call that begins fails, or keeps the tab good. -/
theorem Good.begins (good : Good toLowerCase tab) (call : Call) :
    (tab.begin toLowerCase call).Failed ∨ Good toLowerCase (tab.begin toLowerCase call) := by
  -- A call that is refused has failed at once; another one sends its first request.
  cases asks : call.requests toLowerCase with
  | error refusal =>
    refine .inl ⟨⟨call, [], .received, true⟩, ?_, rfl⟩
    rw [Tab.begin, asks]
    exact List.mem_append_right _ (List.mem_singleton.mpr rfl)
  -- The call is appended and goes on from there.
  | ok requests =>
    have control := good.control.await call requests
    have is : (tab.await call requests).running[tab.running.length]?
      = some ⟨call, .send :: requests, .received, false⟩ := by simp [Tab.await]
    obtain ⟨running', call_, -, rest_, running_⟩ :=
      goOn_running (tab.await call requests) tab.running.length ⟨call, .send :: requests,
        .received, false⟩
    rw [good.control.begin_eq toLowerCase asks]
    refine .inr ⟨control.next is rfl rfl, fun {other entry} there =>
      ?_, fun {key sets} governs value last => ?_⟩
    -- The new call has its requests, and the others are as before.
    · rw [running_] at there
      by_cases same : other = tab.running.length
      · subst same
        obtain rfl := Option.some.inj ((running_update_self is _).symm.trans there)
        exact ⟨requests, by rw [call_]; exact asks, by rw [rest_]; exact List.suffix_refl _⟩
      · rw [running_update_of_ne same, Tab.await, List.getElem?_append] at there
        split at there
        · exact good.suffix there
        · rename_i outside
          rw [List.getElem?_eq_none (by simp; omega)] at there
          cases there
    -- The value set last is the new call's, or the one before.
    · rw [lastOf_update sets is call_ running_, lastOf_await] at last
      rw [control.memberWill_next is rfl]
      have same : (tab.await call requests).memberWill = tab.memberWill := rfl
      rw [same]
      cases own : sets call with
      | none =>
        rw [own, Option.none_or] at last
        have before := good.member governs value last
        -- A request of another kind leaves the value as it was.
        rcases get_applied governs asks (List.suffix_refl _) tab.memberWill with get | unchanged
        · rw [get, own, Option.none_or, before]
        · rw [unchanged, before]
      | some value' =>
        -- The new request writes the value, and comes last.
        obtain ⟨change, rfl⟩ :=
          (governs.2 call requests asks).2 (by rw [own]; exact Option.some_ne_none _)
        rw [own, Option.some_or] at last
        rw [applied, Map.get_set_of_ne governs.1,
          (governs.2 call _ asks).1 change List.mem_cons_self, own, Option.some_or, last]

/-- A call that returns keeps the tab good. -/
theorem Good.returns (good : Good toLowerCase tab) (is : tab.running[index]? = some running)
    (progress : running.progress = .received) :
    Good toLowerCase (tab.goOn index running) := by
  have control := good.control.park is progress
  have parked : (tab.park index running).running[index]? = some running.park := by
    rw [Tab.park]
    exact @running_update_self (tab.leave index) index running is _
  obtain ⟨running', call_, -, rest_, running_⟩ := goOn_running tab index running
  obtain ⟨requests, asks, suffix⟩ := good.suffix is
  have tail : running.requests.tail <:+ requests := (List.tail_suffix _).trans suffix
  refine ⟨?_, fun {other entry} there => ?_, fun {key sets} governs value last => ?_⟩
  · rw [goOn_eq]
    exact control.next parked rfl rfl
  · rw [running_] at there
    by_cases same : other = index
    · subst same
      obtain rfl := Option.some.inj ((running_update_self is _).symm.trans there)
      exact ⟨requests, by rw [call_]; exact asks, by rw [rest_]; exact tail⟩
    · rw [running_update_of_ne same] at there
      exact good.suffix there
  · rw [lastOf_update sets is call_ running_] at last
    have before := good.member governs value last
    rw [goOn_eq, control.memberWill_next parked rfl, good.control.memberWill_park is progress]
    rcases get_applied governs asks tail tab.memberWill with get | unchanged
    · cases own : sets running.call with
      | none => rw [get, own, Option.none_or, before]
      | some value' =>
        -- A call that sets the key has only the one request, which is now done.
        obtain ⟨change, rfl⟩ :=
          (governs.2 running.call requests asks).2 (by rw [own]; exact Option.some_ne_none _)
        have only : running.requests.tail = [] := by
          have := suffix.length_le
          refine List.length_eq_zero_iff.mp ?_
          rw [List.length_tail]
          simp only [List.length_singleton] at this
          omega
        rw [only]
        exact before
    · rw [unchanged, before]

/-- One step keeps what holds, or a call fails. -/
theorem Good.step (good : Good toLowerCase tab) (step : Step toLowerCase met tab tab') :
    tab'.Failed ∨ Good toLowerCase tab' := by
  -- The step begins a call, reads for it, receives an answer, goes on, fails or syncs.
  cases step with
  | begins call _ => exact good.begins call
  | @reads turn running head unread is =>
    -- The member is joined and the change is computed, or the call fails.
    by_cases joined : isJoined tab.member = true
    · have running_ :
        (tab.read turn running).running
        = (tab.update turn.index { running with progress := .sent }).running := by
        rw [Tab.read, if_pos joined]
        rfl
      refine .inr ⟨good.control.read head unread is joined, fun {other entry} there =>
        ?_, fun {key sets} governs value last => ?_⟩
      · rw [running_] at there
        by_cases same : other = turn.index
        · subst same
          obtain rfl := Option.some.inj ((running_update_self is _).symm.trans there)
          obtain ⟨requests, asks, suffix⟩ := good.suffix is
          exact ⟨requests, asks, suffix⟩
        · rw [running_update_of_ne same] at there
          exact good.suffix there
      -- Reading for a change leaves what the tab wants as it is.
      · rw [good.control.memberWill_read head unread is joined]
        exact good.member governs value (lastOf_update sets is (by rfl) running_ ▸ last)
    · rw [Tab.read, if_neg joined]
      exact .inl (failed_update is rfl)
  | @receives before after write running flying is =>
    have running_ := receive_running tab before after write running
    refine .inr ⟨good.control.receive flying is, fun {other entry} there =>
      ?_, fun {key sets} governs value last => ?_⟩
    -- The call has its answer, and its requests are as before.
    · rw [running_] at there
      by_cases same : other = write.index
      · subst same
        obtain rfl := Option.some.inj ((running_update_self is _).symm.trans there)
        obtain ⟨requests, asks, suffix⟩ := good.suffix is
        exact ⟨requests, asks, suffix⟩
      · rw [running_update_of_ne same] at there
        exact good.suffix there
    -- The answer brings what the tab wanted of the member.
    · have queue :
        (tab.receive before after write running).ownMemberWrites = tab.ownMemberWrites := by
        rw [Tab.receive]
        cases write.target <;> rfl
      rw [Tab.memberWill, queue, will_receive flying good.control.sole_member]
      exact good.member governs value (lastOf_update sets is (by rfl) running_ ▸ last)
  | returns is _ progress _ _ => exact .inr (good.returns is progress)
  | fails is _ _ => exact .inl (failed_update is rfl)
  | syncs _ =>
    exact .inr ⟨⟨good.control.turns, good.control.apart, good.control.first, good.control.queued,
      good.control.flying, good.control.alone⟩,
      good.suffix, good.member⟩

/-! ### Account data -/

/-- A parked call goes on: either it saves with a current copy, or it saves nothing of the type. -/
theorem Latest.goOn {type : DataType} (latest : Latest tab type) (differs : type ≠ .archived)
    (control : Control tab) (is : tab.running[index]? = some running) {rest : List Request}
    (parked : running.requests = .send :: rest) {requests : List Request}
    (asks : running.call.requests toLowerCase = .ok requests) (suffix : rest <:+ requests)
    (current : ∀ type ∈ saving rest, Current tab index running.call type) :
    Latest (tab.goOn index running) type := by
  by_cases saves : saving rest = some type
  · cases rest with
    | nil => cases saves
    | cons request behind =>
      cases request with
      | updateOwnMember change => cases saves
      | send => cases saves
      | setRoomAccountData type' change =>
        obtain rfl := Option.some.inj saves
        obtain ⟨userId, value, rfl, sets⟩ :=
          Call.saves asks differs (suffix.subset List.mem_cons_self)
        refine latest.save control is parked sets (fun request inside target =>
          ?_) differs (current _ rfl)
        -- Two saves of one kind would be two among the requests of the call.
        have two :=
          (suffix.sublist.filter fun request =>
            decide (request.target = some (.data type'))).length_le
        rw [List.filter_cons_of_pos (by simp [Request.target]), List.length_cons] at two
        have again : request ∈ behind.filter fun request =>
          decide (request.target = some (.data type')) :=
          List.mem_filter.mpr ⟨inside, decide_eq_true target⟩
        have := List.length_pos_of_mem again
        have := Call.once asks type'
        omega
  · exact latest.next control is parked saves

/-- Every step fails, or leaves the latest value. -/
theorem Latest.step {type : DataType} (latest : Latest tab type) (differs : type ≠ .archived)
    (good : Good toLowerCase tab)
    (enough : ∀ tab index call type, met tab index call type → Current tab index call type)
    (step : Step toLowerCase met tab tab') :
    tab'.Failed ∨ Latest tab' type := by
  -- A step that goes on is checked against the condition, and the others send nothing.
  cases step with
  | begins call asked =>
    cases asks : call.requests toLowerCase with
    | error refusal =>
      refine .inl ⟨⟨call, [], .received, true⟩, ?_, rfl⟩
      rw [Tab.begin, asks]
      exact List.mem_append_right _ (List.mem_singleton.mpr rfl)
    | ok requests =>
      -- The new call stands at the end.
      have is : (tab.await call requests).running[tab.running.length]?
        = some ⟨call, .send :: requests, .received, false⟩ := by simp [Tab.await]
      rw [good.control.begin_eq toLowerCase asks]
      refine .inr ((latest.await fun agent sets => Call.request_of_sets asks sets).goOn differs
        (good.control.await call requests) is rfl asks
        (List.suffix_refl _) fun type' saves other => ?_)
      -- The condition holds at the moment the data is asked for.
      obtain ⟨clear, agrees, -⟩ := enough _ _ _ _ (asked requests asks type' saves) other
      refine ⟨clear, agrees, fun agent later entry less there => ?_⟩
      -- There is no later call.
      rw [List.getElem?_eq_none (by simp [Tab.await]; omega)] at there
      cases there
  | @reads turn running head unread is =>
    by_cases joined : isJoined tab.member = true
    · exact .inr (latest.read is joined)
    · rw [Tab.read, if_neg joined]
      exact .inl (failed_update is rfl)
  | receives flying is => exact .inr (latest.receive flying is)
  | @returns index running is _ progress _ asked =>
    -- The call that goes on has its requests from the start.
    obtain ⟨requests, asks, suffix⟩ := good.suffix is
    have parked : (tab.park index running).running[index]? = some running.park := by
      rw [Tab.park]
      exact @running_update_self (tab.leave index) index running is _
    rw [goOn_eq]
    refine .inr ((latest.park is).goOn differs (good.control.park is progress) parked rfl asks
      ((List.tail_suffix _).trans suffix)
      fun type' saves other => ?_)
    -- The condition holds there, and no later call has been parked.
    obtain ⟨clear, agrees, noLater⟩ := enough _ _ _ _ (asked type' saves) other
    refine ⟨clear, agrees, fun agent later entry less there => noLater agent later entry less ?_⟩
    rwa [Tab.park, running_update_of_ne (Nat.ne_of_gt less)] at there
  | fails is _ _ => exact .inl (failed_update is rfl)
  | syncs _ => exact .inr ⟨latest.sole, latest.values⟩

/-- A fresh tab is good. -/
theorem good_fresh (toLowerCase : Text → Text) (fresh : tab.Fresh) :
    Good toLowerCase tab ∧ ∀ type, Latest tab type := by
  obtain ⟨queue, flying, running⟩ := fresh
  refine ⟨⟨⟨?_, ?_, ?_, ?_, ?_, ?_⟩, ?_, ?_⟩, fun type => ⟨?_, ?_⟩⟩ <;> simp [queue, flying,
    running, lastOf, Tab.Sole]

/-- What holds in every run in which no call fails. -/
theorem Steps.good (fresh : tab.Fresh) (run : Steps toLowerCase met tab tab') :
    tab'.Failed ∨ Good toLowerCase tab'
    ∧ ((∀ tab index call type, met tab index call type → Current tab index call type) →
      ∀ type, type ≠ .archived → Latest tab' type) := by
  induction run with
  | refl => exact .inr ⟨(good_fresh toLowerCase fresh).1, fun _ type _ =>
    (good_fresh toLowerCase fresh).2 type⟩
  | @tail _ after _ step ih =>
    rcases ih with failed | ⟨good, latest⟩
    · exact .inl (failed.step step)
    · rcases good.step step with failed | good'
      · exact .inl failed
      · by_cases failed : after.Failed
        · exact .inl failed
        · exact .inr ⟨good', fun enough type differs =>
            ((latest enough type differs).step differs good enough step).resolve_left failed⟩

/-- The last value that is set comes from a call after which none sets one. -/
theorem lastOf_eq_some {α : Type} {sets : Call → Option α} {value : α}
    (last : lastOf sets tab = some value) :
    ∃ (index : Nat) (running : Running), tab.running[index]? = some running
      ∧ sets running.call = some value
      ∧ ∀ (later : Nat) (other : Running), index < later → tab.running[later]? = some other →
      sets other.call = none := by
  have general : ∀ entries : List Running, (entries.filterMap (sets ·.call)).getLast? = some value →
      ∃ (index : Nat) (running : Running), entries[index]? = some running
        ∧ sets running.call = some value
        ∧ ∀ (later : Nat) (other : Running), index < later → entries[later]? = some other →
          sets other.call = none := by
    intro entries
    -- The last one that sets a value is in the rest, or it is this one.
    induction entries with
    | nil => exact fun none_ => by cases none_
    | cons entry rest ih =>
      intro isLast
      by_cases later : rest.filterMap (sets ·.call) = []
      -- No later one sets a value, so the last value is its own.
      · have own : sets entry.call = some value := by
          cases value' : sets entry.call with
          | none => simp [value', later] at isLast
          | some value' => simpa [value', later] using isLast
        refine ⟨0, entry, rfl, own, fun later' other less there => ?_⟩
        obtain ⟨before, rfl⟩ : ∃ before, later' = before + 1 := ⟨later' - 1, by omega⟩
        exact List.filterMap_eq_nil_iff.mp later other (List.mem_of_getElem? there)
      -- The last value of the rest is the last of all.
      · have inRest : (rest.filterMap (sets ·.call)).getLast? = some value := by
          cases value' : sets entry.call with
          | none => simpa [List.filterMap_cons, value'] using isLast
          | some value' =>
            rw [List.filterMap_cons, value'] at isLast
            simpa [List.getLast?_cons_of_ne_nil later] using isLast
        obtain ⟨index, running, there, own, after⟩ := ih inRest
        refine ⟨index + 1, running, there, own, fun later' other less there' => ?_⟩
        obtain ⟨before, rfl⟩ : ∃ before, later' = before + 1 := ⟨later' - 1, by omega⟩
        exact after before other (by omega) there'
  exact general tab.running last

/-- A lock that is saved is read. -/
theorem readModeLocked_eq {content : Content} {agent : Text} {locked : Bool}
    (saved : content.get agent = lockValue locked) :
    readModeLocked content agent = locked := by
  rw [readModeLocked, saved, lockValue]
  cases locked <;> rfl

/-- A timeout that is saved is read. -/
theorem readIdleMute_eq {content : Content} {agent : Text} {minutes : IdleMuteMinutes}
    (saved : content.get agent = timeoutValue minutes) :
    readIdleMute content agent = minutes.1 := by
  have each : ∀ minutes ∈ idleMuteChoices,
    (if minutes = 60 then none else some (Json.number (natNumber minutes))).elim 60
      (fun saved => (idleMuteChoices.find? (isNumber · saved)).getD 60)
        = minutes := by decide +kernel
  have own := each minutes.1 minutes.2
  rw [readIdleMute, saved, timeoutValue]
  by_cases same : minutes = defaultIdleMuteMin
  · rw [if_pos same]
    exact (congrArg Subtype.val same).symm
  · have notDefault : minutes.1 ≠ 60 := fun equal => same (Subtype.ext equal)
    rw [if_neg notDefault] at own
    rw [if_neg same]
    exact own

/-- When all calls have returned `sent`, the member event has the name and the colours of the last
call that set each. When each save of locks and timeouts read a current copy, these have for every
agent the value of the last call that set it. -/
theorem owner_edits (fresh : tab.Fresh) (run : Steps toLowerCase met tab tab')
    (sent : ∀ running ∈ tab'.running, running.Done) :
    (∀ name, lastOf Call.name tab' = some name →
      tab'.member.get (lit "displayname") = some (.string name))
      ∧ (∀ colors, lastOf Call.colors tab' = some colors →
        tab'.member.get channelColorsMemberKey = some colors)
      ∧ ((∀ tab index call type, met tab index call type → Current tab index call type) → ∀ agent,
        (∀ locked, lastOf (Call.lock agent) tab' = some locked →
          readModeLocked (tab'.data .modeLocks) agent = locked)
          ∧ ∀ minutes, lastOf (Call.timeout agent) tab' = some minutes →
          readIdleMute (tab'.data .idleMute) agent = minutes.1) := by
  obtain ⟨good, latest⟩ := (Steps.good fresh run).resolve_left (by
    rintro ⟨running, inside, failed⟩
    rw [(sent running inside).1] at failed
    cases failed)
  -- A call that has returned awaits nothing, so no turn and no write are left.
  have noTurn : tab'.ownMemberWrites = [] :=
    List.eq_nil_iff_forall_not_mem.mpr fun turn inside => by
    obtain ⟨running, rest, is, requests, -⟩ := good.control.turns turn inside
    rw [(sent running (List.mem_of_getElem? is)).2] at requests
    cases requests
  have noWrite : tab'.flying = [] := List.eq_nil_iff_forall_not_mem.mpr fun write inside => by
    obtain ⟨running, request, rest, is, requests, -⟩ := good.control.flying write inside
    rw [(sent running (List.mem_of_getElem? is)).2] at requests
    cases requests
  have member : tab'.memberWill = tab'.member := by
    rw [Tab.memberWill, noTurn, Tab.will, noWrite]
    rfl
  have data : ∀ type, tab'.will (.data type) = tab'.data type := fun type => by
    rw [Tab.will, noWrite]
    rfl
  have saved : (∀ tab index call type, met tab index call type → Current tab index call type) →
    ∀ type, type ≠ .archived → ∀ agent value,
      lastOf (Call.sets type agent) tab' = some value → (tab'.data type).get agent = value := by
    intro enough type differs agent value last
    obtain ⟨index, running, is, sets, after⟩ := lastOf_eq_some last
    rw [← data]
    refine (latest enough type differs).values is sets (fun request inside => ?_)
      fun {later other} less there sets' => ?_
    · rw [(sent running (List.mem_of_getElem? is)).2] at inside
      cases inside
    · exact absurd (after later other less there) sets'
  have mapped : ∀ {α : Type} (f : α → Option Json) (sets : Call → Option α) (value : α),
    lastOf sets tab' = some value →
      lastOf (fun call => (sets call).map f) tab' = some (f value) := by
    intro α f sets value last
    rw [lastOf] at last ⊢
    rw [← List.map_filterMap, List.getLast?_map, last, Option.map_some]
  refine ⟨fun name last => ?_, fun colors last => ?_, fun enough agent =>
    ⟨fun locked last => ?_, fun minutes last => ?_⟩⟩
  · refine member ▸ good.member (governs_name toLowerCase) _ ?_
    rw [lastOf] at last ⊢
    rw [← List.map_filterMap, List.getLast?_map, last, Option.map_some]
  · exact member ▸ good.member (governs_colors toLowerCase) colors last
  · exact readModeLocked_eq
      (saved enough .modeLocks (by decide) agent _ (mapped lockValue _ locked last))
  · exact readIdleMute_eq
      (saved enough .idleMute (by decide) agent _ (mapped timeoutValue _ minutes last))

end

/-! ### Two locks -/

/-- A call that locks the mode of an agent. -/
def lockCall (userId : Text) : Call := .sendListeningMode true userId (some true) none

/-- A tab after a call that locks the mode of an agent and that nothing overlaps. -/
def Tab.locked (tab : Tab) (userId : Text) : Tab := { tab with
  data := Function.update tab.data .modeLocks (save userId (lockValue true) (tab.synced .modeLocks))
  past := Function.update tab.past .modeLocks (tab.data .modeLocks :: tab.past .modeLocks)
  running := tab.running ++ [⟨lockCall userId, [], .received, false⟩] }

/-- A call that locks the mode takes its steps. -/
theorem steps_locked {toLowerCase : Text → Text} {met : Tab → Nat → Call → DataType → Prop}
    {tab : Tab} (queue : tab.ownMemberWrites = []) (flying : tab.flying = []) {userId : Text}
    (isUser : isMatrixUserId userId = true)
    (asks : met tab tab.running.length (lockCall userId) .modeLocks) :
    Steps toLowerCase met tab (tab.locked userId) := by
  let request := Request.setRoomAccountData .modeLocks (save userId (lockValue true))
  let write : Write :=
    ⟨tab.running.length, .data .modeLocks, save userId (lockValue true) (tab.synced .modeLocks)⟩
  -- The call asks for its data and then sends.
  have requests : (lockCall userId).requests toLowerCase = .ok [request, .send] := by
    simp [lockCall, Call.requests, sendListeningMode, isUser, request]
  -- The four states that the call passes through.
  let made : Tab :=
    { tab with flying := [write],
               running := tab.running ++ [⟨lockCall userId, [request, .send], .sent, false⟩] }
  let taken : Tab :=
    { tab.locked userId with
      running := tab.running ++ [⟨lockCall userId, [request, .send], .received, false⟩] }
  let told : Tab :=
    { tab.locked userId with
      running := tab.running ++ [⟨lockCall userId, [.send], .received, false⟩] }
  -- Each is what the step makes of the one before.
  have begins : tab.begin toLowerCase (lockCall userId) = made := by
    simp [Tab.begin, requests, Tab.launch, flying, made, request, write]
  have receives :
    made.receive [] [] write ⟨lockCall userId, [request, .send], .sent, false⟩ = taken := by
    simp [Tab.receive, Tab.update, made, taken, write, Tab.locked, flying]
  have returns :
    taken.goOn tab.running.length ⟨lockCall userId, [request, .send], .received, false⟩ = told := by
    simp [Tab.goOn, Tab.leave, Tab.launch, Tab.update, taken, told, Tab.locked, queue]
  have ends : told.goOn tab.running.length ⟨lockCall userId, [.send], .received, false⟩
    = tab.locked userId := by
    simp [Tab.goOn, Tab.leave, Tab.launch, Tab.update, told, Tab.locked, queue]
  -- The condition is asked where the data is saved, and there alone.
  have first : Step toLowerCase met tab made :=
    begins ▸ .begins (lockCall userId) fun requests' asks' type saves => by
    rw [requests] at asks'
    obtain rfl := Except.ok.inj asks'
    obtain rfl := Option.some.inj saves
    exact asks
  have second : Step toLowerCase met made taken := receives ▸ .receives rfl (by simp [made, write])
  have third : Step toLowerCase met taken told :=
    returns ▸ .returns (by simp [taken]) rfl rfl (by simp) (fun type saves => by cases saves)
  have last : Step toLowerCase met told (tab.locked userId) :=
    ends ▸ .returns (by simp [told]) rfl rfl (by simp) (fun type saves => by cases saves)
  exact (((Relation.ReflTransGen.single first).tail second).tail third).tail last

def freshTab : Tab := ⟨.empty, fun _ => .empty, fun _ => [], fun _ => .empty, [], [], []⟩

/-- Between the two calls the lock that the first saved is synced. -/
theorem owner_edits_synced : ∃ tab, Steps id Current freshTab tab
    ∧ lastOf (Call.lock (lit "@a:h")) tab = some true ∧ readModeLocked (tab.data .modeLocks)
      (lit "@a:h") = true
    ∧ lastOf (Call.lock (lit "@b:h")) tab = some true ∧ readModeLocked (tab.data .modeLocks)
      (lit "@b:h") = true := by
  let first := freshTab.locked (lit "@a:h")
  let synced : Tab :=
    { first with synced := Function.update first.synced .modeLocks (first.data .modeLocks) }
  -- The first lock is made in a fresh tab and then synced.
  have begins : Steps id Current freshTab first := steps_locked rfl rfl (by decide) fun _ =>
    ⟨fun _ none_ => absurd none_ List.not_mem_nil, fun _ _ =>
      rfl, fun agent later entry _ there => by simp [freshTab] at there⟩
  have syncs : Step id Current first synced := .syncs List.mem_cons_self
  -- The second lock is made from the synced content.
  have again : Steps id Current synced (synced.locked (lit "@b:h")) :=
    steps_locked rfl rfl (by decide) fun _ => by
    refine ⟨fun _ none_ => absurd none_ List.not_mem_nil, fun _ _ => by simp [synced],
      fun agent later entry less there => ?_⟩
    rw [List.getElem?_eq_none (Nat.le_of_lt less)] at there
    cases there
  have run := (begins.tail syncs).trans again
  -- Every call is done at the end.
  have sent : ∀ running ∈ (synced.locked (lit "@b:h")).running, running.Done := by
    intro running inside
    simp only [synced, first, Tab.locked, freshTab, List.nil_append, List.cons_append,
      List.mem_cons, List.not_mem_nil, or_false] at inside
    rcases inside with rfl | rfl <;> exact ⟨rfl, rfl⟩
  -- So the theorem tells of both locks.
  obtain ⟨-, -, data⟩ := owner_edits ⟨rfl, rfl, rfl⟩ run sent
  have current : ∀ (tab : Tab) (index : Nat) (call : Call) (type : DataType),
    Current tab index call type → Current tab index call type :=
    fun _ _ _ _ has => has
  have lockA : lastOf (Call.lock (lit "@a:h")) (synced.locked (lit "@b:h")) = some true := by decide
  have lockB : lastOf (Call.lock (lit "@b:h")) (synced.locked (lit "@b:h")) = some true := by decide
  exact ⟨_, run, lockA, (data current _).1 true lockA, lockB, (data current _).1 true lockB⟩

/-- The second of two calls that follow each other before the next sync takes the first one's lock
away. -/
theorem lock_lost :
    ∃ tab, freshTab.Fresh ∧ Steps id (fun _ _ _ _ => True) freshTab tab
      ∧ (∀ running ∈ tab.running, running.Done)
    ∧ lastOf (Call.lock (lit "@a:h")) tab = some true ∧ readModeLocked (tab.data .modeLocks)
      (lit "@a:h") = false := by
  have run : Steps id (fun _ _ _ _ =>
    True) freshTab ((freshTab.locked (lit "@a:h")).locked (lit "@b:h")) :=
    (steps_locked rfl rfl (by decide) trivial).trans (steps_locked rfl rfl (by decide) trivial)
  refine ⟨_, ⟨rfl, rfl, rfl⟩, run, fun running inside => ?_, by decide, by decide⟩
  simp only [Tab.locked, freshTab, List.nil_append, List.cons_append, List.mem_cons,
    List.not_mem_nil, or_false] at inside
  rcases inside with rfl | rfl <;> exact ⟨rfl, rfl⟩

end Khala.OwnerEdits
