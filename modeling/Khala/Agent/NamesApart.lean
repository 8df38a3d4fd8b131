import Khala.Agent.LocalNames
import Khala.Agent.CascadeNames

/-! No two agents of a channel come to share a name, while no name that is held comes back with a
session and no request reads the members while a change of names is on its way. -/

namespace Khala.LocalNames

open Js

variable {toLowerCase fold : Text → Text}

/-! ## Names that are held and names on their way -/

/-- An agent of the channel has a name with the key. -/
def Holds (toLowerCase : Text → Text) (agents : Map Text Member) (userId key : Text) : Prop :=
  ∃ m, agents.get userId = some m ∧ m.present = true ∧ toLowerCase m.displayName = key

/-- A membership event with such a name waits to be written. -/
def Awaits (toLowerCase : Text → Text) (pending : List (Path × Task)) (userId key : Text) : Prop :=
  ∃ path content, (path, Task.member userId content) ∈ pending ∧ content.present = true
    ∧ toLowerCase content.displayName = key

def Claims (toLowerCase : Text → Text) (state : State) (userId key : Text) : Prop :=
  Holds toLowerCase state.agents userId key ∨ Awaits toLowerCase state.pending userId key

/-- No name of the agent is on its way that it does not have. -/
def Quiet (toLowerCase : Text → Text) (state : State) (userId : Text) : Prop :=
  ∀ key, Awaits toLowerCase state.pending userId key → Holds toLowerCase state.agents userId key

/-- A cascade has read the channel, and is not done with it. -/
def Stage.underWay : Stage → Bool
  | .owning .. | .cascading .. | .naming .. => true
  | _ => false

def State.UnderWay (state : State) : Prop :=
  ∃ running, state.running .owner = some running ∧ running.stage.underWay = true

/-- When a step is no overlap and brings no name back that is held. -/
def Meets (toLowerCase : Text → Text) (state : State) : Action → Prop
  | .join request =>
    -- A join must find no cascade under way and no name that is being given up.
    ¬ state.UnderWay ∧ (∀ userId, Quiet toLowerCase state userId) ∧
      match request.sessionKey.bind state.memberForSession with
      -- An agent that is there already keeps its name, so nobody else may have it.
      | some (userId, member) => ∀ other,
        Holds toLowerCase state.agents other (toLowerCase member.displayName) → other = userId
      -- A new one needs a free variant of its name.
      | none => HasFreeVariant toLowerCase request.username request.harness
        state.names request.label
  | .renameAgent _ _ => ∀ userId, Quiet toLowerCase state userId
  | .enter userId => state.UnderWay → Quiet toLowerCase state userId
  | .setMode userId _ => state.UnderWay → Quiet toLowerCase state userId
  -- The cascade begins when the username is written, and then nobody may have the new one.
  | .resume .owner =>
    ∀ previous next result, state.running .owner = some ⟨.listed previous next, result⟩ →
    (∀ userId, Quiet toLowerCase state userId) ∧ ∀ userId,
      Holds toLowerCase state.agents userId (toLowerCase state.ownerShown) →
      toLowerCase state.ownerShown = toLowerCase next
  | _ => True

/-! ## A cascade and the names -/

/-- The key of an agent as a cascade has read it. -/
def keyOf (toLowerCase : Text → Text) (entry : Text × Member) : Text :=
  toLowerCase entry.2.displayName

/-- The agents that a cascade has still to come to are apart, and nobody else has their names. -/
structure Rest (toLowerCase : Text → Text) (claims : Text → Text → Prop)
    (rest : List (Text × Member)) : Prop where
  distinct : rest.Pairwise fun one other =>
    one.1 ≠ other.1 ∧ keyOf toLowerCase one ≠ keyOf toLowerCase other
  others : ∀ entry ∈ rest, ∀ userId, claims userId (keyOf toLowerCase entry) → userId = entry.1
  own : ∀ entry ∈ rest, ∀ key, claims entry.1 key → key = keyOf toLowerCase entry
  present : ∀ entry ∈ rest, entry.2.present = true

/-- Between two agents: all names are taken. -/
structure Under (toLowerCase : Text → Text) (claims : Text → Text → Prop)
    (rest : List (Text × Member)) (taken : Finset Text) :
    Prop where
  left : Rest toLowerCase claims rest
  held : ∀ entry ∈ rest, keyOf toLowerCase entry ∈ taken
  claimed : ∀ userId key, claims userId key → key ∈ taken

/-- While an agent's new name is written: its old key is taken out, and its new one not yet put in.
-/
structure Naming (toLowerCase : Text → Text) (claims : Text → Text → Prop) (userId : Text)
    (rest : List (Text × Member)) (without : Finset Text) : Prop where
  left : Rest toLowerCase claims rest
  held : ∀ entry ∈ rest, keyOf toLowerCase entry ∈ without
  away : ∀ other key, other ≠ userId → claims other key → key ∈ without

variable {claims claims' : Text → Text → Prop} {rest : List (Text × Member)}
    {taken without : Finset Text}

/-- Fewer claims leave the rest there. -/
theorem Rest.mono (there : Rest toLowerCase claims rest)
    (fewer : ∀ userId key, claims' userId key → claims userId key) :
    Rest toLowerCase claims' rest :=
  ⟨there.distinct, fun entry inside userId claim =>
    there.others entry inside userId (fewer _ _ claim),
    fun entry inside key claim => there.own entry inside key (fewer _ _ claim), there.present⟩

/-- Fewer claims are under the names that are taken. -/
theorem Under.mono (there : Under toLowerCase claims rest taken)
    (fewer : ∀ userId key, claims' userId key → claims userId key) :
    Under toLowerCase claims' rest taken :=
  ⟨there.left.mono fewer, there.held, fun userId key claim =>
    there.claimed userId key (fewer _ _ claim)⟩

/-- Fewer claims leave a naming under way. -/
theorem Naming.mono {userId : Text} (there : Naming toLowerCase claims userId rest without)
    (fewer : ∀ userId key, claims' userId key → claims userId key) :
    Naming toLowerCase claims' userId rest without :=
  ⟨there.left.mono fewer, there.held, fun other key apart claim =>
    there.away other key apart (fewer _ _ claim)⟩

/-- More names may be taken. -/
theorem Under.more (there : Under toLowerCase claims rest taken) {taken' : Finset Text}
    (more : taken ⊆ taken') :
    Under toLowerCase claims rest taken' :=
  ⟨there.left, fun entry inside => more (there.held entry inside), fun userId key claim =>
    more (there.claimed userId key claim)⟩

/-- Without its first entry the rest is under the names that are taken. -/
theorem Under.tail {entry : Text × Member}
    (there : Under toLowerCase claims (entry :: rest) taken) :
    Under toLowerCase claims rest taken :=
  ⟨⟨(List.pairwise_cons.mp there.left.distinct).2, fun other inside =>
    there.left.others other (List.mem_cons_of_mem _ inside),
    fun other inside => there.left.own other (List.mem_cons_of_mem _ inside),
    fun other inside => there.left.present other (List.mem_cons_of_mem _ inside)⟩,
    fun other inside => there.held other (List.mem_cons_of_mem _ inside), there.claimed⟩

/-- An agent takes a name that nobody has: the names stay apart. -/
theorem Under.take {userId : Text} {m : Member}
    (there : Under toLowerCase claims ((userId, m) :: rest) taken) {key : Text}
    (free : key ∉ taken.erase (toLowerCase m.displayName)) :
    (∀ other, claims other key → other = userId)
    ∧ Naming toLowerCase (fun other key' =>
      claims other key' ∨ (other = userId ∧ key' = key)) userId rest
      (taken.erase (toLowerCase m.displayName)) := by
  -- The other agents have other identifiers and other keys.
  have apart := (List.pairwise_cons.mp there.left.distinct).1
  have others := there.left.others (userId, m) List.mem_cons_self
  -- Their keys are still taken once this agent gives up its own.
  have held : ∀ entry ∈ rest, keyOf toLowerCase entry ∈ taken.erase (toLowerCase m.displayName) :=
    fun entry inside =>
    Finset.mem_erase.mpr ⟨(apart entry inside).2.symm,
      there.held entry (List.mem_cons_of_mem _ inside)⟩
  have away : ∀ other key', other ≠ userId → claims other key' →
    key' ∈ taken.erase (toLowerCase m.displayName) := by
    intro other key' differs claim
    refine Finset.mem_erase.mpr ⟨?_, there.claimed other key' claim⟩
    rintro rfl
    exact differs (others other claim)
  -- The free key is claimed by nobody else, and adding it keeps everything else.
  refine ⟨fun other claim => ?_, ⟨there.tail.left.distinct, ?_, ?_, there.tail.left.present⟩, held,
    ?_⟩
  · by_contra differs
    exact free (away other key differs claim)
  · rintro entry inside other (claim | ⟨rfl, is⟩)
    · exact there.tail.left.others entry inside other claim
    · exact absurd (is ▸ held entry inside) free
  · rintro entry inside key' (claim | ⟨same, -⟩)
    · exact there.tail.left.own entry inside key' claim
    · exact absurd same.symm (apart entry inside).1
  · rintro other key' differs (claim | ⟨same, -⟩)
    · exact away other key' differs claim
    · exact absurd same differs

/-- The agent's name is settled. -/
theorem Naming.settle {userId key : Text} (there : Naming toLowerCase claims userId rest without)
    (own : ∀ key', claims userId key' → key' = key) :
    Under toLowerCase claims rest (insert key without) := by
  refine ⟨there.left, fun entry inside => Finset.mem_insert_of_mem (there.held entry inside),
    fun other key' claim => ?_⟩
  by_cases same : other = userId
  · rw [own key' (same ▸ claim)]
    exact Finset.mem_insert_self _ _
  · exact Finset.mem_insert_of_mem (there.away other key' same claim)

/-! ## What holds at all times -/

/-- What holds while the owner's requests are at a stage. -/
def StageSound (toLowerCase : Text → Text) (state : State) : Stage → Option Bool → Prop
  | .inviting .., _ | .last, _ => True
  | .writing _ next, _ | .listed _ next, _ => isMentionName next = true
  | .owning _ next rest taken retaken, _ => isMentionName next = true
    ∧ Under toLowerCase (Claims toLowerCase state) rest taken
    ∧ Under toLowerCase (Claims toLowerCase state) rest retaken
  | .cascading _ next rest taken, _ => isMentionName next = true
    ∧ Under toLowerCase (Claims toLowerCase state) rest taken
  | .naming _ next _ m name rest without, some ok => isMentionName next = true
    ∧ Under toLowerCase (Claims toLowerCase state) rest
      (insert (toLowerCase (if ok then name else m.displayName)) without)
  | .naming _ next userId m name rest without, none =>
    (isMentionName next = true ∧ m.present = true)
    ∧ Naming toLowerCase (Claims toLowerCase state) userId rest without
    ∧ (∀ key, Holds toLowerCase state.agents userId key → key = toLowerCase m.displayName)
    ∧ ∃ before after,
      state.pending = before ++ (.owner, .member userId { m with displayName := name }) :: after
      -- What was asked before gives the agent its old name, and what is asked after does not tell
      -- the two apart.
      ∧ (∀ key, Awaits toLowerCase before userId key → key = toLowerCase m.displayName)
      ∧ ∀ key, Awaits toLowerCase after userId key → key = toLowerCase m.displayName
      ∧ key = toLowerCase name

/-- The stages of a username's change. -/
def Stage.ofOwner : Stage → Bool
  | .inviting .. | .last => false
  | _ => true

/-- What holds in every state that is reached. -/
structure Sound (toLowerCase : Text → Text) (state : State) : Prop where
  apart : ∀ one other key, Claims toLowerCase state one key → Claims toLowerCase state other key →
    one = other
  named : ∀ userId m, state.agents.get userId = some m → isMentionName m.displayName = true
  awaited : ∀ path userId content, (path, Task.member userId content) ∈ state.pending →
    isMentionName content.displayName = true
  /-- Each path waits for one task at most. -/
  lined : (state.pending.map Prod.fst).Nodup
  waits : ∀ path task, (path, task) ∈ state.pending → ∃ stage,
    state.running path = some ⟨stage, none⟩
  stage : ∀ running, state.running .owner = some running →
    StageSound toLowerCase state running.stage running.result
  foreign : ∀ path running, path ≠ .owner → state.running path = some running →
    running.stage.ofOwner = false

variable {state after : State}

/-- A task that names no member makes no claim. -/
theorem claims_ask {path : Path} {task : Task} {stage : Stage}
    (silent : ∀ userId content, task ≠ .member userId content) (userId key : Text) :
    Claims toLowerCase (state.ask path task stage) userId key
      ↔ Claims toLowerCase state userId key := by
  refine or_congr Iff.rfl ⟨?_, ?_⟩
  · rintro ⟨path', content, inside, rest⟩
    rcases List.mem_append.mp inside with old | new
    · exact ⟨path', content, old, rest⟩
    · rw [List.mem_singleton, Prod.mk.injEq] at new
      exact absurd new.2.symm (silent userId content)
  · rintro ⟨path', content, inside, rest⟩
    exact ⟨path', content, List.mem_append_left _ inside, rest⟩

/-- An event that is asked for may give its agent a name. -/
theorem claims_ask_member {path : Path} {stage : Stage} {asked : Text} {content : Member}
    (userId key : Text) :
    Claims toLowerCase (state.ask path (.member asked content) stage) userId key ↔
      Claims toLowerCase state userId key
        ∨ (userId = asked ∧ content.present = true ∧ key = toLowerCase content.displayName) := by
  -- A claim is held, waits for its turn, or is the one just asked for.
  constructor
  · rintro (held | ⟨path', content', inside, here, same⟩)
    · exact .inl (.inl held)
    · rcases List.mem_append.mp inside with old | new
      · exact .inl (.inr ⟨path', content', old, here, same⟩)
      · rw [List.mem_singleton, Prod.mk.injEq, Task.member.injEq] at new
        obtain ⟨-, rfl, rfl⟩ := new
        exact .inr ⟨rfl, here, same.symm⟩
  · rintro ((held | ⟨path', content', inside, rest⟩) | ⟨rfl, here, rfl⟩)
    · exact .inl held
    · exact .inr ⟨path', content', List.mem_append_left _ inside, rest⟩
    · exact .inr ⟨path, content, List.mem_append_right _ (List.mem_singleton_self _), here, rfl⟩

/-- A path that waits for nothing has no task with the store. -/
theorem Sound.unlined (sound : Sound toLowerCase state) {path : Path}
    (idle : ∀ stage, state.running path ≠ some ⟨stage, none⟩) :
    path ∉ state.pending.map Prod.fst := by
  intro inside
  obtain ⟨⟨path', task⟩, there, rfl⟩ := List.mem_map.mp inside
  obtain ⟨stage, waits⟩ := sound.waits path' task there
  exact idle stage waits

/-- What a path asks for keeps the line in order. -/
private theorem lined_ask (sound : Sound toLowerCase state) {path : Path} {task : Task}
    {stage : Stage} (idle : ∀ stage, state.running path ≠ some ⟨stage, none⟩) :
    ((state.ask path task stage).pending.map Prod.fst).Nodup
    ∧ ∀ path' task', (path', task') ∈ (state.ask path task stage).pending →
      ∃ stage', (state.ask path task stage).running path' = some ⟨stage', none⟩ := by
  -- The path had nothing in line, so it still has one task at most.
  have unlined := sound.unlined idle
  refine ⟨?_, fun path' task' inside => ?_⟩
  · rw [State.ask, List.map_append]
    exact List.nodup_append.mpr ⟨sound.lined, List.nodup_singleton _, fun one inside other new => by
      rw [List.map_singleton, List.mem_singleton] at new
      rw [new]
      rintro rfl
      exact unlined inside⟩
  -- A task in line belongs to a path that waits: an old one, or this one.
  · rcases List.mem_append.mp inside with old | new
    · obtain ⟨stage', waits⟩ := sound.waits path' task' old
      refine ⟨stage', (Function.update_of_ne ?_ ..).trans waits⟩
      rintro rfl
      exact unlined (List.mem_map.mpr ⟨_, old, rfl⟩)
    · rw [List.mem_singleton, Prod.mk.injEq] at new
      rw [new.1]
      exact ⟨stage, Function.update_self ..⟩

/-- A request that asks waits in its stage. -/
theorem running_ask (path : Path) (task : Task) (stage : Stage) :
    (state.ask path task stage).running path = some ⟨stage, none⟩ :=
  Function.update_self ..

/-- The other requests stay in their stages. -/
theorem running_ask_of_ne {path other : Path} (apart : other ≠ path) (task : Task) (stage : Stage) :
    (state.ask path task stage).running other = state.running other :=
  Function.update_of_ne apart ..

/-- A stage of the owner's requests stays sound when others only claim what is claimed, and ask for
no agent being named. -/
private theorem stageSound_of_asked {stage : Stage} {result : Option Bool}
    (sound : StageSound toLowerCase state stage result) (agents : after.agents = state.agents)
    {task : Path × Task} (pending : after.pending = state.pending ++ [task])
    (fewer : ∀ userId key, Claims toLowerCase after userId key →
      Claims toLowerCase state userId key)
    (quiet : ∀ path userId content key, task = (path, .member userId content) →
      content.present = true → toLowerCase content.displayName = key → stage.underWay = true →
      Holds toLowerCase state.agents userId key ∧ Quiet toLowerCase state userId) :
    StageSound toLowerCase after stage result := by
  cases stage with
  | inviting => trivial
  | last => trivial
  | writing => exact sound
  | listed => exact sound
  | owning => exact ⟨sound.1, sound.2.1.mono fewer, sound.2.2.mono fewer⟩
  | cascading => exact ⟨sound.1, sound.2.mono fewer⟩
  | naming previous next userId m name rest without =>
    cases result with
    | some ok => exact ⟨sound.1, sound.2.mono fewer⟩
    | none =>
      obtain ⟨mention, naming, holds, front, back, is, old, new⟩ := sound
      refine ⟨mention, naming.mono fewer, by rw [agents]; exact holds, front,
        back ++ [task], by rw [pending, is]; simp, old,
        fun key => ?_⟩
      rintro ⟨path, content, inside, here, same⟩
      rcases List.mem_append.mp inside with already | asked
      · exact new key ⟨path, content, already, here, same⟩
      · rw [List.mem_singleton] at asked
        obtain ⟨held, quiet⟩ := quiet path userId content key asked.symm here same rfl
        -- The name that is being written is one the agent has, so both have one key.
        have written :=
          quiet (toLowerCase name) ⟨.owner, { m with displayName := name }, by rw [is]; simp,
            mention.2, rfl⟩
        exact ⟨holds key held, (holds key held).trans (holds _ written).symm⟩

/-- Stages outside a cascade do not look at names. -/
private theorem stageSound_of_calm {stage : Stage} {result : Option Bool}
    (calm : stage.underWay = false) (sound : StageSound toLowerCase state stage result) :
    StageSound toLowerCase after stage result := by
  cases stage with
  | inviting => trivial
  | last => trivial
  | writing => exact sound
  | listed => exact sound
  | owning => cases calm
  | cascading => cases calm
  | naming => cases calm

/-! ## Requests that ask the store -/

/-- A request asks for something: an event gives its agent a name that no other agent claims. -/
theorem Sound.ask (sound : Sound toLowerCase state) {path : Path} {task : Task} {stage : Stage}
    (idle : ∀ stage, state.running path ≠ some ⟨stage, none⟩)
    (named : ∀ userId content, task = .member userId content →
      isMentionName content.displayName = true)
    (apart : ∀ userId content, task = .member userId content → content.present = true → ∀ other,
      Claims toLowerCase state other (toLowerCase content.displayName) → other = userId)
    (stages : ∀ running, (state.ask path task stage).running .owner = some running →
      StageSound toLowerCase (state.ask path task stage) running.stage running.result)
    (foreign : path ≠ .owner → stage.ofOwner = false) :
    Sound toLowerCase (state.ask path task stage) := by
  have order := @lined_ask _ _ sound path task stage idle
  refine ⟨?_, sound.named, ?_, order.1, order.2, stages, fun path' running apart is => ?_⟩
  -- Two claims of one key are old, new, or one of each.
  · intro one other key first second
    cases task with
    | member userId content =>
      rw [claims_ask_member] at first second
      rcases first with old | ⟨rfl, here, rfl⟩ <;> rcases second with old' | ⟨rfl, here', same⟩
      · exact sound.apart one other key old old'
      · subst same
        exact apart _ content rfl here' one old
      · exact (apart _ content rfl here other old').symm
      · rfl
    -- A task that is not about a member claims nothing.
    | memberToken | username | ownerName | ownerMember =>
      rw [claims_ask (by simp)] at first second
      exact sound.apart one other key first second
  -- A member in line has a name that was checked.
  · intro path' userId content inside
    rcases List.mem_append.mp inside with old | new
    · exact sound.awaited path' userId content old
    · rw [List.mem_singleton, Prod.mk.injEq] at new
      exact named userId content new.2.symm
  -- Only the path of the owner is at a stage of the owner.
  · by_cases same : path' = path
    · subst same
      rw [running_ask] at is
      cases is
      exact foreign apart
    · rw [running_ask_of_ne same] at is
      exact sound.foreign path' running apart is

/-- A request that asks for no membership event. -/
private theorem Sound.ask_silent (sound : Sound toLowerCase state) {path : Path} {task : Task}
    {stage : Stage} (idle : ∀ stage, state.running path ≠ some ⟨stage, none⟩)
    (silent : ∀ userId content, task ≠ .member userId content)
    (own : path = .owner → StageSound toLowerCase (state.ask path task stage) stage none)
    (foreign : path ≠ .owner → stage.ofOwner = false) :
    Sound toLowerCase (state.ask path task stage) := by
  refine sound.ask idle (fun userId content is => absurd is (silent userId content))
    (fun userId content is => absurd is (silent userId content)) (fun running is => ?_) foreign
  by_cases owners : path = .owner
  · subst owners
    rw [running_ask] at is
    cases is
    exact own rfl
  · rw [running_ask_of_ne (Ne.symm owners)] at is
    exact stageSound_of_asked (sound.stage running is) rfl rfl (fun userId key =>
      (claims_ask silent userId key).mp)
      fun path' userId content key same => absurd (Prod.mk.inj same).2 (silent userId content)

/-- A request goes on without the store, or ends. -/
private theorem Sound.move (sound : Sound toLowerCase state) {path : Path} {next : Option Running}
    (idle : ∀ stage, state.running path ≠ some ⟨stage, none⟩)
    (own : path = .owner → ∀ running, next = some running →
      StageSound toLowerCase state running.stage running.result)
    (foreign : path ≠ .owner → ∀ running, next = some running → running.stage.ofOwner = false) :
    Sound toLowerCase { state with running := Function.update state.running path next } := by
  -- Nothing of this path is in line, and only its stage changes.
  have unlined := sound.unlined idle
  refine ⟨sound.apart, sound.named, sound.awaited, sound.lined, fun path' task inside =>
    ?_, fun running is => ?_,
    fun path' running apart is => ?_⟩
  · obtain ⟨stage, waits⟩ := sound.waits path' task inside
    refine ⟨stage, (Function.update_of_ne ?_ ..).trans waits⟩
    rintro rfl
    exact unlined (List.mem_map.mpr ⟨_, inside, rfl⟩)
  -- The stage of the owner is the given one, or the one it had.
  · have stages : StageSound toLowerCase state running.stage running.result := by
      by_cases owners : path = .owner
      · subst owners
        have there : Function.update state.running .owner next .owner = next :=
          Function.update_self ..
        exact own rfl running (there.symm.trans is)
      · have there : Function.update state.running path next .owner = state.running .owner :=
          Function.update_of_ne (Ne.symm owners) ..
        exact sound.stage running (there.symm.trans is)
    exact stages
  -- For any other path it is never one of the owner.
  · by_cases same : path' = path
    · subst same
      have there : Function.update state.running path' next path' = next := Function.update_self ..
      exact foreign apart running (there.symm.trans is)
    · have there : Function.update state.running path next path' = state.running path' :=
        Function.update_of_ne same ..
      exact sound.foreign path' running apart (there.symm.trans is)

/-! ## Requests that begin -/

/-- Nobody but the agent that has a name claims it, while nothing is on its way. -/
private theorem claims_of_quiet (quiet : ∀ userId, Quiet toLowerCase state userId)
    {userId key : Text} (claim : Claims toLowerCase state userId key) :
    Holds toLowerCase state.agents userId key :=
  claim.elim id (quiet userId key)

/-- A name that is held is one of the members' names. -/
private theorem mem_names {userId key : Text} (held : Holds toLowerCase state.agents userId key) :
    ∃ m, (userId, m) ∈ state.members ∧ m.displayName ∈ state.names
      ∧ toLowerCase m.displayName = key := by
  obtain ⟨m, found, present, same⟩ := held
  have inside : (userId, m) ∈ state.members :=
    List.mem_filter.mpr ⟨Map.get_eq_some.mp found, present⟩
  refine ⟨m, inside,
    List.mem_toFinset.mpr (List.mem_cons_of_mem _ (List.mem_map.mpr ⟨_, inside, rfl⟩)), same⟩

/-- A present member holds its name. -/
private theorem holds_of_mem {userId : Text} {m : Member} (inside : (userId, m) ∈ state.members) :
    Holds toLowerCase state.agents userId (toLowerCase m.displayName) := by
  obtain ⟨there, present⟩ := List.mem_filter.mp inside
  exact ⟨m, Map.get_eq_some.mpr there, present, rfl⟩

/-- A join that begins keeps the state sound. -/
private theorem sound_join (ascii : LowersAscii toLowerCase) (sound : Sound toLowerCase state)
    {request : JoinRequest} (meets : Meets toLowerCase state (.join request))
    (free : state.running .join = none) :
    Sound toLowerCase (state.beginJoin toLowerCase request) := by
  obtain ⟨still, quiet, fits⟩ := meets
  have idle : ∀ stage, state.running .join ≠ some ⟨stage, none⟩ := fun stage is => by
    rw [free] at is
    cases is
  -- The owner's requests are outside a cascade, and stay where they are.
  have stages : ∀ task stage running, (state.ask .join task stage).running .owner = some running →
      StageSound toLowerCase (state.ask .join task stage) running.stage running.result := by
    intro task stage running is
    rw [running_ask_of_ne (by decide)] at is
    refine stageSound_of_calm ?_ (sound.stage running is)
    rw [Bool.eq_false_iff]
    exact fun underWay => still ⟨running, is, underWay⟩
  rw [State.beginJoin]
  split
  · exact sound
  · split
    · exact sound
    · rename_i name accepted
      obtain ⟨trimmed, mention⟩ := checkName_ok accepted
      dsimp only
      split
      · rename_i userId member returning
        rw [returning] at fits
        refine sound.ask idle (fun _ _ is => ?_) (fun _ _ is _ other claim => ?_)
          (stages _ _) fun _ => rfl
        · cases is
          obtain ⟨key, -, found⟩ := Option.bind_eq_some_iff.mp returning
          rw [State.memberForSession, Option.bind_eq_some_iff] at found
          obtain ⟨entry, -, found⟩ := found
          obtain ⟨m, inside, is⟩ := Option.map_eq_some_iff.mp found
          cases is
          exact (sound.named entry.1 member inside : isMentionName member.displayName = true)
        · cases is
          exact fits other (claims_of_quiet quiet claim)
      · rename_i returning
        rw [returning] at fits
        split
        · exact sound
        · rename_i userId drawn
          refine sound.ask idle (fun _ _ is => ?_) (fun _ _ is _ other claim => ?_)
            (stages _ _) fun _ => rfl
          · cases is
            exact mention
          · cases is
            -- Whoever holds the name is among the members whose names were avoided.
            obtain ⟨m, inside, listed, same⟩ := mem_names (claims_of_quiet quiet claim)
            obtain ⟨key, again⟩ := nameKey_of_isMentionName ascii
              (sound.named other m (Map.get_eq_some.mpr (List.mem_filter.mp inside).1))
            have once : toLowerCase m.displayName ∈ takenNames toLowerCase state.names := by
              rw [← key]
              exact Finset.mem_image_of_mem _ listed
            have twice :
              toLowerCase m.displayName ∈ takenNames toLowerCase
              (takenNames toLowerCase state.names) := by
              have := Finset.mem_image_of_mem (nameKey toLowerCase) once
              rwa [again] at this
            rw [same, trimmed] at once twice
            rcases freeAgentName_free fits with unused | unused
            · exact absurd once unused
            · exact absurd twice unused

/-- A rename that begins keeps the state sound. -/
private theorem sound_rename (sound : Sound toLowerCase state) {userId name : Text}
    (quiet : ∀ userId, Quiet toLowerCase state userId) (free : state.running .owner = none) :
    Sound toLowerCase (state.beginRename toLowerCase userId name) := by
  -- A rename asks for its event only where the name is accepted and nobody else has it.
  rw [State.beginRename]
  split
  · rename_i name member accepted found
    split
    · exact sound
    · split
      · exact sound
      · rename_i unheld
        split
        · exact sound
        · refine sound.ask (fun stage is => by rw [free] at is; cases is) (fun _ _ is => ?_)
            (fun _ _ is _ other claim => ?_)
            (fun running is => ?_) fun _ => rfl
          · cases is
            exact (checkName_ok accepted).2
          -- Whoever else claims the key would show under this name, and the check would have seen
          -- it.
          · cases is
            obtain ⟨m, inside, -, same⟩ := mem_names (claims_of_quiet quiet claim)
            by_contra differs
            refine unheld ?_
            rw [Bool.or_eq_true]
            refine .inl (List.any_eq_true.mpr ⟨_, inside, ?_⟩)
            simp [differs, same]
          · rw [running_ask] at is
            cases is
            trivial
  · exact sound

/-- An agent's own event gives it the name that it has; a removal gives none. -/
private theorem sound_member (sound : Sound toLowerCase state) {path : Path} {userId : Text}
    {allowed : Member → Bool} {content : Member → Member} (free : state.running path = none)
    (same : ∀ m, (content m).displayName = m.displayName)
    (present : ∀ m, allowed m = true → (content m).present = true → m.present = true)
    (quiet : path ≠ .owner → state.UnderWay → Quiet toLowerCase state userId) :
    Sound toLowerCase (state.beginMember path userId allowed content) := by
  -- The event of the member keeps its name, so it claims what was held before.
  rw [State.beginMember]
  split
  · exact sound
  · rename_i member found
    split
    · rename_i allows
      -- Where the member will be present, it was so before.
      have holds : (content member).present = true →
        Holds toLowerCase state.agents userId (toLowerCase (content member).displayName) :=
        fun here => ⟨member, found, present member allows here, by rw [same]⟩
      refine sound.ask (fun stage is => by rw [free] at is; cases is) (fun _ _ is => ?_)
        (fun _ _ is here other claim => ?_)
        (fun running is => ?_) fun _ => rfl
      · cases is
        rw [same]
        exact sound.named _ _ found
      · cases is
        exact sound.apart _ _ _ claim (.inl (holds here))
      -- On the owner's own path no cascade is under way.
      · by_cases owners : path = .owner
        · subst owners
          rw [running_ask] at is
          cases is
          trivial
        -- On another path a cascade may be, and then nothing of this member is in line.
        · rw [running_ask_of_ne (Ne.symm owners)] at is
          refine stageSound_of_asked (sound.stage running is) rfl rfl (fun other key claim => ?_)
            fun path' other asked key is' here key' underWay => ?_
          · rcases (claims_ask_member other key).mp claim with old | ⟨rfl, here, rfl⟩
            · exact old
            · exact .inl (holds here)
          · cases is'
            exact ⟨key' ▸ holds here, quiet owners ⟨running, is, underWay⟩⟩
    · exact sound

/-! ## A cascade through the channel -/

/-- What a cascade reads while nothing is on its way. -/
private theorem under_members (sound : Sound toLowerCase state)
    (quiet : ∀ userId, Quiet toLowerCase state userId) :
    Under toLowerCase (Claims toLowerCase state) state.members (state.names.image toLowerCase) := by
  refine ⟨⟨?_, fun entry inside userId claim => ?_, fun entry inside key claim =>
    ?_, fun entry inside => ?_⟩, fun entry inside => ?_,
    fun userId key claim => ?_⟩
  -- Different members have different identifiers.
  · have users : state.members.Pairwise fun one other => one.1 ≠ other.1 :=
      (List.pairwise_map.mp state.agents.distinct).filter _
    -- Two of one key would both claim it.
    refine users.imp_of_mem fun {one other} inside inside' differs =>
      ⟨differs, fun same => differs ?_⟩
    have second : Claims toLowerCase state other.1 (keyOf toLowerCase other) :=
      .inl (holds_of_mem inside')
    rw [← same] at second
    exact sound.apart _ _ _ (.inl (holds_of_mem inside)) second
  · exact sound.apart _ _ _ claim (.inl (holds_of_mem inside))
  -- As nothing is in line, a claim is one that is held, and by the member itself.
  · obtain ⟨m, found, -, same⟩ := claims_of_quiet quiet claim
    rw [Map.get_eq_some.mpr (List.mem_filter.mp inside).1] at found
    cases found
    exact same.symm
  · exact (List.mem_filter.mp inside).2
  -- All keys held are listed, and nobody else claims one.
  · have holds : Holds toLowerCase state.agents _ (toLowerCase _) := holds_of_mem inside
    obtain ⟨m, there, listed, same⟩ := mem_names holds
    rw [keyOf, ← same]
    exact Finset.mem_image_of_mem _ listed
  · obtain ⟨m, -, listed, same⟩ := mem_names (claims_of_quiet quiet claim)
    rw [← same]
    exact Finset.mem_image_of_mem _ listed

/-- A key that no agent has, or that is put in again, may be taken out. -/
private theorem Under.retake (there : Under toLowerCase claims rest taken) {key other : Text}
    (listed : ∀ entry ∈ rest, claims entry.1 (keyOf toLowerCase entry))
    (unheld : ∀ userId, claims userId other → other = key) :
    Under toLowerCase claims rest (insert key (taken.erase other)) := by
  have keeps : ∀ userId held, claims userId held → held ∈ taken →
    held ∈ insert key (taken.erase other) := by
    intro userId held claim inside
    by_cases same : held = other
    · rw [same, unheld userId (same ▸ claim)]
      exact Finset.mem_insert_self _ _
    · exact Finset.mem_insert_of_mem (Finset.mem_erase.mpr ⟨same, inside⟩)
  exact ⟨there.left, fun entry inside => keeps _ _ (listed entry inside) (there.held entry inside),
    fun userId held claim => keeps userId held claim (there.claimed userId held claim)⟩

/-- A cascade that begins keeps the state sound. -/
private theorem sound_beginCascade (sound : Sound toLowerCase state) {previous next : Text}
    {ok : Bool} (listed : state.running .owner = some ⟨.listed previous next, some ok⟩)
    (quiet : ∀ userId, Quiet toLowerCase state userId)
    (unheld : ∀ userId, Holds toLowerCase state.agents userId (toLowerCase state.ownerShown) →
      toLowerCase state.ownerShown = toLowerCase next) :
    Sound toLowerCase (state.beginCascade toLowerCase previous next) := by
  -- The owner's path has read the list, and waits for nothing.
  have idle : ∀ stage, state.running .owner ≠ some ⟨stage, none⟩ := fun stage is => by
    rw [listed] at is
    cases is
  have mention : isMentionName next = true := sound.stage _ listed
  -- The members claim the keys that are taken, and give them up one by one.
  have under := under_members sound quiet
  have listed' : ∀ entry ∈ state.members,
    Claims toLowerCase state entry.1 (keyOf toLowerCase entry) :=
    fun entry inside => .inl (holds_of_mem inside)
  have unheld' : ∀ userId, Claims toLowerCase state userId (toLowerCase state.ownerShown) →
      toLowerCase state.ownerShown = toLowerCase next :=
    fun userId claim => unheld userId (claims_of_quiet quiet claim)
  have retaken := under.retake listed' unheld'
  rw [State.beginCascade]
  -- Without a change of the owner's name the cascade begins with the members.
  split
  · refine sound.move idle (fun _ running is => ?_) fun apart => absurd rfl apart
    cases is
    exact ⟨mention, under⟩
  -- Otherwise the owner goes first, which asks for no member's name.
  · have stages : ∀ task : Task, (∀ userId content, task ≠ .member userId content) →
        StageSound toLowerCase
          (state.ask .owner task
            (.owning previous next state.members (state.names.image toLowerCase)
          (insert (toLowerCase next)
            ((state.names.image toLowerCase).erase (toLowerCase state.ownerShown)))))
          (.owning previous next state.members (state.names.image toLowerCase)
            (insert (toLowerCase next)
              ((state.names.image toLowerCase).erase (toLowerCase state.ownerShown)))) none := by
      intro task silent
      exact ⟨mention, under.mono fun userId key => (claims_ask silent userId key).mp,
        retaken.mono fun userId key => (claims_ask silent userId key).mp⟩
    dsimp only
    split
    · exact sound.ask_silent idle (by simp) (fun _ => stages _ (by simp)) fun apart =>
        absurd rfl apart
    · exact sound.ask_silent idle (by simp) (fun _ => stages _ (by simp)) fun apart =>
        absurd rfl apart

/-- The next agent of a cascade. -/
private theorem sound_choose (lowers : LowersTail toLowerCase) (sound : Sound toLowerCase state)
    {previous next userId : Text} {m : Member} {ok : Bool}
    (here : state.running .owner = some ⟨.cascading previous next ((userId, m) :: rest) taken,
      some ok⟩)
    (continues :
      state.continue_ toLowerCase fold .owner
      (.cascading previous next ((userId, m) :: rest) taken) ok = some after) :
    Sound toLowerCase after := by
  have idle : ∀ stage, state.running .owner ≠ some ⟨stage, none⟩ := fun stage is => by
    rw [here] at is
    cases is
  -- What the stage knows: the new name is well formed, and the rest is still to come.
  obtain ⟨mention, under⟩ := sound.stage _ here
  obtain ⟨choice, chooses, chosen⟩ :=
    Cascade.chooseName_chosen lowers fold (Nat.lt_succ_self taken.card) previous next m.displayName
    m.harness
  rw [State.continue_, chooses, Option.map_some, Option.some.injEq] at continues
  subst continues
  -- The agent keeps its name, or takes a new one that is free.
  cases chosen with
  | keep more few less reached =>
    refine sound.move idle (fun _ running is => ?_) fun apart => absurd rfl apart
    cases is
    exact ⟨mention, under.tail.more more⟩
  | @take name harness n has old is falls accepted free =>
    -- The new key is free, so it is nobody else's.
    obtain ⟨alone, naming⟩ := under.take free
    have present : m.present = true := under.left.present _ List.mem_cons_self
    refine sound.ask idle (fun _ _ same => ?_) (fun _ _ same _ => ?_) (fun running same => ?_)
      fun apart => absurd rfl apart
    · cases same
      rw [is] at accepted ⊢
      exact isMentionName_default mention accepted
    · cases same
      exact alone
    · rw [running_ask] at same
      cases same
      -- What the agent claims itself is the key that it gives up.
      have own := under.left.own (userId, m) List.mem_cons_self
      refine ⟨⟨mention, present⟩, naming.mono fun other key claim => ?_, fun key held =>
        own key (.inl held),
        state.pending, [], rfl, fun key awaits => own key (.inr awaits), ?_⟩
      · exact ((claims_ask_member other key).mp claim).imp id fun given => ⟨given.1, given.2.2⟩
      · rintro key ⟨_, _, inside, -⟩
        cases inside

/-- A request whose task is settled goes on. -/
private theorem sound_resume (lowers : LowersTail toLowerCase) (sound : Sound toLowerCase state)
    {path : Path} {stage : Stage} {ok : Bool} (here : state.running path = some ⟨stage, some ok⟩)
    (meets : Meets toLowerCase state (.resume path))
    (continues : state.continue_ toLowerCase fold path stage ok = some after) :
    Sound toLowerCase after := by
  have idle : ∀ stage, state.running path ≠ some ⟨stage, none⟩ := fun stage is => by
    rw [here] at is
    cases is
  have ended : Sound toLowerCase (state.finish path) :=
    sound.move idle (fun _ _ is => by cases is) fun _ _ is => by cases is
  -- Only the owner's requests change a username.
  have owners : stage.ofOwner = true → path = .owner := fun of => by
    by_contra apart
    rw [sound.foreign path _ apart here] at of
    cases of
  cases stage with
  -- The session is written after the invitation.
  | inviting userId sessionKey =>
    cases continues
    cases ok with
    | false => exact ended
    | true => exact sound.ask_silent idle (by simp) (fun _ => trivial) fun _ => rfl
  -- A last request leaves nothing to be done.
  | last =>
    cases continues
    exact ended
  | writing previous next =>
    cases owners rfl
    cases continues
    -- A failed write ends the request, another one goes on.
    cases ok with
    | false => exact ended
    | true =>
      have mention := sound.stage _ here
      refine sound.move idle (fun _ running is => ?_) fun apart => absurd rfl apart
      cases is
      exact mention
  -- The cascade begins with the agents that are listed.
  | listed previous next =>
    cases owners rfl
    cases continues
    obtain ⟨quiet, unheld⟩ := meets previous next (some ok) here
    exact sound_beginCascade sound here quiet unheld
  -- The owner's name is given back when the write of it failed.
  | owning previous next rest taken retaken =>
    cases owners rfl
    cases continues
    refine sound.move idle (fun _ running is => ?_) fun apart => absurd rfl apart
    cases is
    obtain ⟨mention, failed, worked⟩ := sound.stage _ here
    cases ok with
    | false => exact ⟨mention, failed⟩
    | true => exact ⟨mention, worked⟩
  -- The next agent gets its name, when one is left.
  | cascading previous next rest taken =>
    cases owners rfl
    cases rest with
    | nil =>
      cases continues
      exact ended
    | cons entry rest => exact sound_choose lowers sound here continues
  -- The agent's name is done with.
  | naming previous next userId m name rest without =>
    cases owners rfl
    cases continues
    have now := sound.stage _ here
    refine sound.move idle (fun _ running is => ?_) fun apart => absurd rfl apart
    cases is
    exact now

/-! ## The store settles a task -/

/-- A member that is set holds its new name, and the others hold theirs. -/
theorem holds_set {agents : Map Text Member} {asked : Text} {content : Member} {userId key : Text} :
    Holds toLowerCase (agents.set asked content) userId key ↔
      (userId = asked ∧ content.present = true ∧ toLowerCase content.displayName = key)
        ∨ (userId ≠ asked ∧ Holds toLowerCase agents userId key) := by
  -- The map changes at the one who was asked, and nowhere else.
  rw [Holds, Map.get_set]
  by_cases same : userId = asked
  · rw [if_pos same]
    constructor
    · rintro ⟨m, is, rest⟩
      cases is
      exact .inl ⟨same, rest⟩
    · rintro (⟨-, rest⟩ | ⟨apart, -⟩)
      · exact ⟨content, rfl, rest⟩
      · exact absurd same apart
  · rw [if_neg same]
    constructor
    · exact fun held => .inr ⟨same, held⟩
    · rintro (⟨is, -⟩ | ⟨-, held⟩)
      · exact absurd is same
      · exact held

/-- What a settled task leaves of who holds which name. -/
private theorem holds_settled {task : Task} {ok landed : Bool} {userId key : Text}
    (held : Holds toLowerCase (if ok then state.apply task
      else state.applyFailed landed task).agents userId key) :
    (∃ content, task = .member userId content ∧ ok = true ∧ content.present = true
      ∧ toLowerCase content.displayName = key)
      ∨ (Holds toLowerCase state.agents userId key
        ∧ (ok = true → ∀ content, task ≠ .member userId content)) := by
  -- A failed write may only land for the name of the owner, which holds no key.
  cases ok with
  | false =>
    refine .inr ⟨?_, fun is => by cases is⟩
    cases task with
    | ownerName name =>
      cases landed <;> exact held
    | _ => exact held
  -- A write that works sets its member, and leaves the others.
  | true =>
    rw [if_pos rfl] at held
    cases task with
    | member asked content =>
      rcases holds_set.mp held with ⟨rfl, here, same⟩ | ⟨apart, held⟩
      · exact .inl ⟨content, rfl, rfl, here, same⟩
      · exact .inr ⟨held, fun _ other is => apart (Task.member.inj is).1.symm⟩
    | _ => exact .inr ⟨held, fun _ other is => by cases is⟩

/-- After a task a member is as it was asked for or as before. -/
private theorem agents_get_settled {task : Task} {ok landed : Bool} {userId : Text} {m : Member}
    (found : (if ok then state.apply task else state.applyFailed landed task).agents.get userId
      = some m) :
    task = .member userId m ∨ state.agents.get userId = some m := by
  -- The same cases: only a write of this member changes what is found.
  cases ok with
  | false =>
    refine .inr ?_
    cases task with
    | ownerName name =>
      cases landed <;> exact found
    | _ => exact found
  | true =>
    rw [if_pos rfl] at found
    cases task with
    | member asked content =>
      rw [State.apply, Map.get_set] at found
      split at found
      · rename_i same
        cases found
        exact .inl (by rw [same])
      · exact .inr found
    | _ => exact .inr found

/-- The owner's task was the first in line. -/
private theorem stageSound_of_settled {stage : Stage} {task : Task} {ok : Bool}
    {rest : List (Path × Task)} (sound : StageSound toLowerCase state stage none)
    (lined : (state.pending.map Prod.fst).Nodup) (line : state.pending = (.owner, task) :: rest)
    (pending : after.pending = rest)
    (fewer : ∀ userId key, Claims toLowerCase after userId key →
      Claims toLowerCase state userId key)
    (held : ∀ userId key, Holds toLowerCase after.agents userId key →
      (∃ content, task = .member userId content ∧ ok = true ∧ content.present = true
        ∧ toLowerCase content.displayName = key) ∨ (Holds toLowerCase state.agents userId key
        ∧ (ok = true → ∀ content, task ≠ .member userId content))) :
    StageSound toLowerCase after stage (some ok) := by
  cases stage with
  | inviting => trivial
  | last => trivial
  | writing => exact sound
  | listed => exact sound
  | owning => exact ⟨sound.1, sound.2.1.mono fewer, sound.2.2.mono fewer⟩
  | cascading => exact ⟨sound.1, sound.2.mono fewer⟩
  | naming previous next userId m name left without =>
    obtain ⟨⟨mention, present⟩, naming, holds, front, back, is, old, new⟩ := sound
    rw [line] at is lined
    cases front with
    | cons first front =>
      -- The owner's path waits for one task only.
      rw [List.cons_append, List.cons.injEq] at is
      obtain ⟨rfl, is⟩ := is
      rw [is, List.map_cons, List.nodup_cons] at lined
      exact absurd (List.mem_map.mpr ⟨_, List.mem_append_right _ List.mem_cons_self, rfl⟩) lined.1
    | nil =>
      rw [List.nil_append, List.cons.injEq, Prod.mk.injEq] at is
      obtain ⟨⟨-, rfl⟩, rfl⟩ := is
      refine ⟨mention, (naming.mono fewer).settle fun key claim => ?_⟩
      rcases claim with there | waiting
      · rcases held userId key there with ⟨content, is, rfl, -, same⟩ | ⟨there, unwritten⟩
        · cases is
          exact same.symm
        · cases ok with
          | true => exact absurd rfl (unwritten rfl { m with displayName := name })
          | false => exact holds key there
      · rw [pending] at waiting
        obtain ⟨former, latter⟩ := new key waiting
        cases ok with
        | true => exact latter
        | false => exact former

/-- Another path's task was the first in line. -/
private theorem stageSound_of_passed {stage : Stage} {result : Option Bool} {path : Path}
    {task : Task} {rest : List (Path × Task)} (sound : StageSound toLowerCase state stage result)
    (apart : path ≠ .owner) (line : state.pending = (path, task) :: rest)
    (pending : after.pending = rest)
    (fewer : ∀ userId key, Claims toLowerCase after userId key →
      Claims toLowerCase state userId key)
    (held : ∀ userId key, Holds toLowerCase after.agents userId key →
      (∃ content, task = .member userId content ∧ content.present = true
        ∧ toLowerCase content.displayName = key) ∨ Holds toLowerCase state.agents userId key) :
    StageSound toLowerCase after stage result := by
  -- Only the naming of an agent depends on what is in line.
  cases stage with
  | inviting => trivial
  | last => trivial
  | writing => exact sound
  | listed => exact sound
  | owning => exact ⟨sound.1, sound.2.1.mono fewer, sound.2.2.mono fewer⟩
  | cascading => exact ⟨sound.1, sound.2.mono fewer⟩
  | naming previous next userId m name left without =>
    cases result with
    | some ok => exact ⟨sound.1, sound.2.mono fewer⟩
    | none =>
      -- It waits for its own write, which has one less before it now.
      obtain ⟨given, naming, holds, front, back, is, old, new⟩ := sound
      rw [line] at is
      -- The write that passed is not its own, as that belongs to the owner's path.
      cases front with
      | nil =>
        rw [List.nil_append, List.cons.injEq, Prod.mk.injEq] at is
        exact absurd is.1.1 apart
      | cons first front =>
        rw [List.cons_append, List.cons.injEq] at is
        obtain ⟨rfl, rfl⟩ := is
        -- What is held now was held, or was written by the task that passed.
        refine ⟨given, naming.mono fewer, fun key there => ?_, front, back, pending, fun key =>
          ?_, new⟩
        · rcases held userId key there with ⟨content, rfl, written⟩ | there
          · exact old key ⟨path, content, List.mem_cons_self, written⟩
          · exact holds key there
        · rintro ⟨path', content, inside, written⟩
          exact old key ⟨path', content, List.mem_cons_of_mem _ inside, written⟩

/-- A task that is settled keeps the state sound. -/
private theorem sound_settle (sound : Sound toLowerCase state) {ok landed : Bool}
    (settled : state.step toLowerCase fold (.settle ok landed) = some after) :
    Sound toLowerCase after := by
  rw [State.step] at settled
  split at settled
  · cases settled
  · rename_i path task rest line
    obtain ⟨stage, waits⟩ := sound.waits path task (by rw [line]; exact List.mem_cons_self)
    rw [Option.some.injEq] at settled
    -- What the task does to the agents is done, and the task is off the line.
    have agents :
      after.agents = (if ok then state.apply task else state.applyFailed landed task).agents := by
      rw [← settled]
    have pending : after.pending = rest := by rw [← settled]
    have own : after.running path = some ⟨stage, some ok⟩ := by
      rw [← settled]
      exact (Function.update_self ..).trans (by rw [waits]; rfl)
    -- The other requests stay where they are.
    have others : ∀ other, other ≠ path → after.running other = state.running other := by
      intro other apart
      have running : (if ok then state.apply task else state.applyFailed landed task).running
        = state.running := by
        cases ok <;> cases task <;> first | rfl | (cases landed <;> rfl)
      rw [← settled]
      exact (Function.update_of_ne apart ..).trans rfl
    clear settled
    -- No new name gets on its way.
    have awaits : ∀ userId key, Awaits toLowerCase after.pending userId key →
      Awaits toLowerCase state.pending userId key := by
      rintro userId key ⟨path', content, inside, given⟩
      rw [pending] at inside
      exact ⟨path', content, by rw [line]; exact List.mem_cons_of_mem _ inside, given⟩
    -- A name that comes to be held was on its way.
    have fewer : ∀ userId key, Claims toLowerCase after userId key →
      Claims toLowerCase state userId key := by
      rintro userId key (held | waiting)
      · rw [agents] at held
        rcases holds_settled held with ⟨content, is, -, given⟩ | ⟨held, -⟩
        · exact .inr ⟨path, content, by rw [line, is]; exact List.mem_cons_self, given⟩
        · exact .inl held
      · exact .inr (awaits userId key waiting)
    have lined := sound.lined
    rw [line, List.map_cons, List.nodup_cons] at lined
    refine ⟨fun one other key first second => sound.apart one other key (fewer _ _ first)
      (fewer _ _ second), ?_, ?_,
      by rw [pending]; exact lined.2, ?_, ?_, ?_⟩
    -- The agents that are there now were there, or come from the task.
    · intro userId m found
      rw [agents] at found
      rcases agents_get_settled found with is | old
      · exact sound.awaited path userId m (by rw [line, is]; exact List.mem_cons_self)
      · exact sound.named userId m old
    · intro path' userId content inside
      rw [pending] at inside
      exact sound.awaited path' userId content (by rw [line]; exact List.mem_cons_of_mem _ inside)
    · intro path' task' inside
      rw [pending] at inside
      rw [others path' fun same => lined.1 (same ▸ List.mem_map.mpr ⟨_, inside, rfl⟩)]
      exact sound.waits path' task' (by rw [line]; exact List.mem_cons_of_mem _ inside)
    -- The owner's request goes on with the task that it waited for.
    · intro running is
      have held : ∀ userId key, Holds toLowerCase after.agents userId key → _ :=
        fun userId key there =>
        holds_settled (agents ▸ there)
      by_cases owners : path = .owner
      · subst owners
        rw [own] at is
        cases is
        exact stageSound_of_settled (sound.stage _ waits) sound.lined line pending fewer held
      · rw [others .owner (Ne.symm owners)] at is
        exact stageSound_of_passed (sound.stage running is) owners line pending fewer
          fun userId key there =>
          (held userId key there).imp (fun ⟨content, is, _, given⟩ => ⟨content, is, given⟩) And.left
    -- Other requests go on in the same way, one at a time.
    · intro path' running apart is
      by_cases same : path' = path
      · subst same
        rw [own] at is
        cases is
        exact sound.foreign path' ⟨stage, none⟩ apart waits
      · rw [others path' same] at is
        exact sound.foreign path' running apart is

/-! ## Steps and runs -/

/-- The first state is sound. -/
theorem sound_start (username : Text) : Sound toLowerCase (.start username) := by
  refine ⟨fun one other key first => ?_, fun userId m found =>
    ?_, fun path userId content inside => ?_, List.nodup_nil,
    fun path task inside => ?_, fun running is => ?_, fun path running _ is => ?_⟩
  · rcases first with ⟨m, found, -⟩ | ⟨path, content, inside, -⟩
    · cases found
    · cases inside
  · cases found
  · cases inside
  · cases inside
  · cases is
  · cases is

/-- A request begins only when its path is free. -/
private theorem begin_eq_some {path : Path} {begun : State}
    (begins : state.begin_ path begun = some after) :
    state.running path = none ∧ begun = after := by
  rw [State.begin_] at begins
  split at begins
  · rename_i free
    exact ⟨free, Option.some.inj begins⟩
  · cases begins

/-- One step that meets the condition keeps what holds. -/
theorem sound_step (lowers : LowersTail toLowerCase) (ascii : LowersAscii toLowerCase)
    {action : Action} (sound : Sound toLowerCase state) (meets : Meets toLowerCase state action)
    (taken : state.step toLowerCase fold action = some after) : Sound toLowerCase after := by
  -- By the action: each route begins on a free path, and then goes on by its stages.
  cases action with
  | join request =>
    obtain ⟨free, rfl⟩ := begin_eq_some taken
    exact sound_join ascii sound meets free
  | renameAgent userId name =>
    obtain ⟨free, rfl⟩ := begin_eq_some taken
    exact sound_rename sound meets free
  -- The owner gets a name in one channel, which changes no member's.
  | nameOwner name =>
    obtain ⟨free, rfl⟩ := begin_eq_some taken
    have idle : ∀ stage, state.running .owner ≠ some ⟨stage, none⟩ :=
      fun stage is => by rw [free] at is; cases is
    rw [State.beginNameOwner]
    split
    · exact sound
    · split
      · exact sound
      · exact sound.ask_silent idle (by simp) (fun _ => trivial) fun apart => absurd rfl apart
  | removeMember userId =>
    obtain ⟨free, rfl⟩ := begin_eq_some taken
    exact sound_member sound free (fun _ => rfl) (fun _ _ is => by cases is) fun apart =>
      absurd rfl apart
  -- A new name of the user is checked before the cascade starts.
  | setUsername name =>
    obtain ⟨free, rfl⟩ := begin_eq_some taken
    have idle : ∀ stage, state.running .owner ≠ some ⟨stage, none⟩ :=
      fun stage is => by rw [free] at is; cases is
    rw [State.beginUsername]
    split
    · exact sound
    · rename_i name' accepted
      split
      · exact sound
      · refine sound.ask_silent idle (by simp) (fun _ => ?_) fun apart => absurd rfl apart
        rw [checkNewUsername] at accepted
        split at accepted
        · cases accepted
        · rename_i checked
          split at accepted
          · cases accepted
          · cases accepted
            exact (checkName_ok checked).2
  | enter userId =>
    obtain ⟨free, rfl⟩ := begin_eq_some taken
    refine sound_member sound free (fun _ => rfl) (fun m invited _ => ?_) fun _ => meets
    simp only [decide_eq_true_eq] at invited
    simp [Member.present, invited]
  | setMode userId mode =>
    obtain ⟨free, rfl⟩ := begin_eq_some taken
    exact sound_member sound free (fun _ => rfl) (fun m _ here => here) fun _ => meets
  -- A task settles, and its path learns of it.
  | settle ok landed => exact sound_settle sound taken
  -- A path goes on with the answer that it waited for.
  | resume path =>
    rw [State.step, Option.bind_eq_some_iff] at taken
    obtain ⟨⟨stage, result⟩, here, taken⟩ := taken
    rw [Option.bind_eq_some_iff] at taken
    obtain ⟨ok, rfl, continues⟩ := taken
    exact sound_resume lowers sound here meets continues

/-- While no session brings back a name that another agent has, no request reads the members while a
change of names is on its way, and a free name is among those that are tried, no two agents of the
channel ever have one name. -/
theorem names_apart (lowers : LowersTail toLowerCase) (ascii : LowersAscii toLowerCase)
    (reached : Reached toLowerCase fold (Meets toLowerCase) state) :
    ∀ one other m m', state.agents.get one = some m → state.agents.get other = some m' →
    m.present = true → m'.present = true →
      toLowerCase m.displayName = toLowerCase m'.displayName → one = other := by
  have sound : Sound toLowerCase state := by
    induction reached with
    | start username => exact sound_start username
    | step before met taken ih => exact sound_step lowers ascii ih met taken
  intro one other m m' found found' present present' same
  exact sound.apart one other _ (.inl ⟨m, found, present, rfl⟩)
    (.inl ⟨m', found', present', same.symm⟩)

/-! ## Two runs -/

/-- Actions in a row. -/
def State.steps (toLowerCase fold : Text → Text) (state : State) : List Action → Option State
  | [] => some state
  | action :: rest => (state.step toLowerCase fold action).bind fun after =>
    after.steps toLowerCase fold rest

/-- A run is reached when each of its steps meets the condition. -/
theorem reached_steps {meets : State → Action → Prop} {actions : List Action}
    (reached : Reached toLowerCase fold meets state)
    (met : ∀ done action rest between, actions = done ++ action :: rest →
      state.steps toLowerCase fold done = some between → meets between action)
    (taken : state.steps toLowerCase fold actions = some after) :
    Reached toLowerCase fold meets after := by
  induction actions generalizing state with
  | nil =>
    cases taken
    exact reached
  | cons action rest ih =>
    rw [State.steps, Option.bind_eq_some_iff] at taken
    obtain ⟨next, step, taken⟩ := taken
    refine ih (reached.step (met [] action rest state rfl rfl) step)
      (fun done other more between is here => ?_) taken
    refine met (action :: done) other more between (by rw [is]; rfl) ?_
    rw [State.steps, step, Option.bind_some]
    exact here

private def asciiLowerCase (s : Text) : Text := s.map asciiLower

private def joinAs (userId : String) (sessionKey : Option Text) : Action :=
  .join ⟨lit "ann", lit "qwen", none, sessionKey, [lit userId]⟩

/-- The store does a request's tasks one by one. -/
private def twice (path : Path) : List Action :=
  [.settle true false, .resume path, .settle true false, .resume path]

private def comingBack : List Action :=
  joinAs "a" (some (lit "key")) :: twice .join
    ++ [Action.removeMember (lit "a"), .settle true false, .resume .owner]
    ++ joinAs "b" none :: twice .join ++ [joinAs "a" (some (lit "key")), .settle true false]

/-- A session comes back under the name that another agent took when it was away. -/
theorem session_brings_name_back :
    ((State.start (lit "ann")).steps asciiLowerCase id comingBack).map (fun state =>
      state.members.map fun entry =>
      (entry.1, entry.2.displayName)) = some [(lit "a", lit "ann-Qwen"),
      (lit "b", lit "ann-Qwen")] := by
  decide +kernel

/-- Actions that meet the condition in every state. -/
private def harmless : Action → Bool
  | .settle _ _ | .resume .join => true
  | _ => false

/-- A join where nothing is on its way, with a free name, and harmless actions after it. -/
private theorem reached_join {request : JoinRequest} {actions : List Action}
    (taken : state.steps toLowerCase fold (.join request :: actions) = some after)
    (reached : Reached toLowerCase fold (Meets toLowerCase) state) (pending : state.pending = [])
    (owner : state.running .owner = none) (new : request.sessionKey = none)
    (free : HasFreeVariant toLowerCase request.username request.harness state.names request.label)
    (others : ∀ action ∈ actions, harmless action = true) :
    Reached toLowerCase fold (Meets toLowerCase) after := by
  refine reached_steps reached (fun done action rest between is here => ?_) taken
  cases done with
  -- The join comes first, on a channel where nothing is under way.
  | nil =>
    cases is
    cases here
    refine ⟨?_, ?_, ?_⟩
    · rintro ⟨running, is, -⟩
      rw [owner] at is
      cases is
    · rintro userId key ⟨path, content, inside, -⟩
      rw [pending] at inside
      cases inside
    · rw [new]
      exact free
  -- What comes after it are answers and steps of the join itself, which need no condition.
  | cons first done =>
    rw [List.cons_append, List.cons.injEq] at is
    have fine := others action (by rw [is.2]; exact List.mem_append_right _ List.mem_cons_self)
    cases action with
    | settle => trivial
    | resume path =>
      cases path with
      | join => trivial
      | owner => cases fine
      | rooms => cases fine
    | _ => cases fine

/-- Lower-casing ASCII letters lets the digits behind a name be. -/
private theorem asciiLowerCase_tail : LowersTail asciiLowerCase := fun _ _ _ _ => List.map_append

/-- In a run two agents join one after the other, and have two names. -/
theorem names_apart_joins :
    ∃ state one other, Reached asciiLowerCase id (Meets asciiLowerCase) state
    ∧ state.agents.get (lit "a") = some one ∧ state.agents.get (lit "b") = some other
    ∧ one.present = true ∧ other.present = true
    ∧ asciiLowerCase one.displayName ≠ asciiLowerCase other.displayName := by
  have first :
    ((State.start (lit "ann")).steps asciiLowerCase id (joinAs "a" none :: twice .join)).isSome
    = true := by
    decide +kernel
  obtain ⟨one, taken⟩ := Option.isSome_iff_exists.mp first
  have calm : one.pending = [] ∧ one.running .owner = none
      ∧ nameKey asciiLowerCase (lit "ann-Qwen-2") ∉ takenNames asciiLowerCase one.names := by
    have now : ((State.start (lit "ann")).steps asciiLowerCase id
      (joinAs "a" none :: twice .join)).all (fun state =>
        decide (state.pending = [] ∧ (state.running .owner).isNone = true
          ∧ nameKey asciiLowerCase (lit "ann-Qwen-2") ∉ takenNames asciiLowerCase state.names))
            = true := by
      decide +kernel
    rw [taken, Option.all_some, decide_eq_true_eq] at now
    exact ⟨now.1, Option.isNone_iff_eq_none.mp now.2.1, now.2.2⟩
  have second :
    (((State.start (lit "ann")).steps asciiLowerCase id (joinAs "a" none :: twice .join)).bind
      fun state =>
      (state.steps asciiLowerCase id [joinAs "b" none, .settle true false]).map fun state =>
        (state.agents.get (lit "a"),
        state.agents.get (lit "b")))
          = some (some ⟨.invite, lit "ann-Qwen", some (lit "qwen"), .sync⟩,
          some ⟨.invite, lit "ann-Qwen-2", some (lit "qwen"), .sync⟩) := by
    decide +kernel
  rw [taken, Option.bind_some, Option.map_eq_some_iff] at second
  obtain ⟨two, taken', agents⟩ := second
  rw [Prod.mk.injEq] at agents
  have free : HasFreeVariant asciiLowerCase (lit "ann") (lit "qwen")
    (State.start (lit "ann")).names none :=
    ⟨1, by decide, by decide, by decide +kernel⟩
  have free' : HasFreeVariant asciiLowerCase (lit "ann") (lit "qwen") one.names none :=
    ⟨2, by decide, by decide, calm.2.2⟩
  have alone := reached_join taken (.start (lit "ann")) rfl rfl rfl free (by decide)
  have reached := reached_join taken' alone calm.1 calm.2.1 rfl free' (by decide)
  refine ⟨two, _, _, reached, agents.1, agents.2, rfl, rfl, fun same => ?_⟩
  -- One name would make them one agent.
  exact absurd (names_apart asciiLowerCase_tail (fun _ _ =>
    rfl) reached _ _ _ _ agents.1 agents.2 rfl rfl same) (by decide)

end Khala.LocalNames
