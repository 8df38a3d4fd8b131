import Khala.Agent.NameCascade
import Khala.Contracts.DefaultNames
import Mathlib.Data.List.Nodup

/-! What a cascade makes of the names in the channels: only default names change, and no two agents
come to share one. -/

namespace Khala.Cascade

open Js

variable {toLowerCase fold : Text → Text} {faults : Faults} {previous next : Text}

/-- The agents' names where case is ignored. -/
def keys (toLowerCase : Text → Text) (agents : List Agent) : List Text :=
  agents.map fun agent => toLowerCase agent.displayName

/-- The agent has a default name of the user, with a number that counts. -/
def HasDefault (fold : Text → Text) (username : Text) (agent : Agent) (harness : Text) : Prop :=
  agent.harness = some harness ∧ isDefaultAgentName fold agent.displayName username harness = true

/-- The number of the name that an agent is to get: its old one, or, when that name is held, the
first whose name may be free. -/
def Falls (toLowerCase : Text → Text) (held : Text → Prop) (next harness : Text) (own n : Nat) :
    Prop :=
  n = own ∨ held (toLowerCase (defaultAgentName next harness own)) ∧ 1 ≤ n
    ∧ ∀ k, 1 ≤ k → k < n → held (toLowerCase (defaultAgentName next harness k))

/-- The more names are held, the later the first number that may be free. -/
theorem Falls.mono {held held' : Text → Prop} (more : ∀ key, held key → held' key) {harness : Text}
    {own n : Nat} (falls : Falls toLowerCase held next harness own n) :
    Falls toLowerCase held' next harness own n :=
  falls.imp_right fun ⟨owned, positive, before⟩ =>
    ⟨more _ owned, positive, fun k least less => more _ (before k least less)⟩

/-- What becomes of one agent while some names are held. -/
structure Outcome (toLowerCase fold : Text → Text) (held : Text → Prop) (faults : Faults)
    (previous next : Text) (before after : Agent) : Prop where
  /-- Nothing but the name changes. -/
  same : after = { before with displayName := after.displayName }
  /-- A name that changes was a default name of the old username, and is an accepted one of the new
  username. -/
  renamed : after.displayName ≠ before.displayName →
    faults.append before.userId = false ∧ ∃ harness,
    HasDefault fold previous before harness ∧ HasDefault fold next after harness
      ∧ (checkName after.displayName .agent).isOk = true
  /-- A default name becomes the one with the number that falls to the agent, unless that name is
  not accepted or the append fails. -/
  reached : ∀ harness, HasDefault fold previous before harness → 1 ≤ nameNumber before.displayName →
    nameNumber before.displayName ≤ Decode.maxSafeInteger →
    ∃ n, Falls toLowerCase held next harness (nameNumber before.displayName) n
      ∧ after.displayName = if (checkName (defaultAgentName next harness n) .agent).isOk
        && !faults.append before.userId
        then defaultAgentName next harness n else before.displayName

/-- The same becomes of an agent, whatever more is held. -/
theorem Outcome.mono {held held' : Text → Prop} (more : ∀ key, held key → held' key)
    {before after : Agent}
    (outcome : Outcome toLowerCase fold held faults previous next before after) :
    Outcome toLowerCase fold held' faults previous next before after := by
  refine ⟨outcome.same, outcome.renamed, fun harness has least most => ?_⟩
  obtain ⟨n, falls, is⟩ := outcome.reached harness has least most
  exact ⟨n, falls.mono more, is⟩

/-! ## Finding a name -/

/-- The name that is found is a default one and is not taken, as those with smaller numbers are. -/
theorem freeDefaultName_some {taken : Finset Text} {username harness name : Text} {fuel k : Nat}
    (found : freeDefaultName toLowerCase taken username harness fuel k = some name) :
    toLowerCase name ∉ taken ∧ ∃ n, k ≤ n ∧ name = defaultAgentName username harness n
      ∧ ∀ j, k ≤ j → j < n → toLowerCase (defaultAgentName username harness j) ∈ taken := by
  -- The induction is on the fuel, and each round tries the next number.
  induction fuel generalizing k with
  | zero => cases found
  | succ fuel ih =>
    rw [freeDefaultName] at found
    split at found
    · -- The name with this number is taken, and the search goes on.
      rename_i here
      obtain ⟨free, n, later, is, before⟩ := ih found
      refine ⟨free, n, by omega, is, fun j least less => ?_⟩
      rcases Nat.eq_or_lt_of_le least with same | more
      · rw [← same]
        exact here
      · exact before j more less
    -- The first free number is the answer, and there was none before it.
    · rename_i free
      cases found
      exact ⟨free, k, Nat.le_refl k, rfl, fun j least less => by omega⟩

/-- While no name is found, all that were tried are taken. -/
private theorem taken_of_none {taken : Finset Text} {username harness : Text} {fuel k : Nat}
    (nothing : freeDefaultName toLowerCase taken username harness fuel k = none) :
    ∀ i < fuel, toLowerCase (defaultAgentName username harness (k + i)) ∈ taken := by
  -- Each round that found nothing met a name that is taken.
  induction fuel generalizing k with
  | zero =>
    intro i below
    cases below
  | succ fuel ih =>
    rw [freeDefaultName] at nothing
    split at nothing
    · rename_i here
      intro i below
      cases i with
      | zero => exact here
      | succ i =>
        have := ih nothing i (Nat.lt_of_succ_lt_succ below)
        rwa [Nat.add_right_comm] at this
    · cases nothing

/-- There are more default names than names that are taken. -/
theorem freeDefaultName_isSome (lowers : LowersTail toLowerCase) {taken : Finset Text} {fuel : Nat}
    (enough : taken.card < fuel) (username harness : Text) (k : Nat) :
    ∃ name, freeDefaultName toLowerCase taken username harness fuel k = some name := by
  cases found : freeDefaultName toLowerCase taken username harness fuel k with
  | some name => exact ⟨name, rfl⟩
  -- More taken names than there are keys: the tried ones are all different.
  | none =>
    have tried := taken_of_none found
    have distinct : Function.Injective fun i =>
      toLowerCase (defaultAgentName username harness (k + i)) := by
      intro i j same
      exact Nat.add_left_cancel (default_injective lowers username harness same)
    have all : (Finset.range fuel).image (fun i =>
      toLowerCase (defaultAgentName username harness (k + i))) ⊆ taken := by
      intro key inside
      obtain ⟨i, below, rfl⟩ := Finset.mem_image.mp inside
      exact tried i (Finset.mem_range.mp below)
    have many := Finset.card_le_card all
    rw [Finset.card_image_of_injective _ distinct, Finset.card_range] at many
    omega

/-! ## One choice -/

variable {taken : Finset Text} {displayName harness : Text}

/-- A key is taken out, and one is put in. -/
theorem card_retaken (taken : Finset Text) (key other : Text) :
    (insert key (taken.erase other)).card ≤ taken.card + 1 :=
  (Finset.card_insert_le _ _).trans (Nat.succ_le_succ (Finset.card_erase_le))

/-- A key that is taken out and put back, or was never taken out. -/
theorem subset_putBack (taken : Finset Text) (key : Text) :
    taken ⊆ insert key (taken.erase key) := by
  intro other inside
  by_cases same : other = key
  · rw [same]
    exact Finset.mem_insert_self _ _
  · exact Finset.mem_insert_of_mem (Finset.mem_erase.mpr ⟨same, inside⟩)

/-- Nothing else is put back. -/
theorem putBack_subset (taken : Finset Text) (key : Text) :
    insert key (taken.erase key) ⊆ insert key taken :=
  Finset.insert_subset_insert key (Finset.erase_subset key taken)

/-- What is known of a choice. -/
inductive Chosen (toLowerCase fold : Text → Text) (previous next : Text) (taken : Finset Text)
    (displayName : Text) (model : Option Text) : Choice → Prop
  /-- Either the name stays: it is no default name, or the new one is refused or is the same. -/
  | keep {taken' : Finset Text} (more : taken ⊆ taken') (few : taken'.card ≤ taken.card + 1)
      (less : taken' ⊆ insert (toLowerCase displayName) taken)
      (reached : ∀ harness, model = some harness →
        isDefaultAgentName fold displayName previous harness = true →
        1 ≤ nameNumber displayName → nameNumber displayName ≤ Decode.maxSafeInteger →
        ∃ n, Falls toLowerCase (· ∈ taken.erase (toLowerCase displayName)) next harness
          (nameNumber displayName) n
          ∧ ((checkName (defaultAgentName next harness n) .agent).isOk = false
            ∨ defaultAgentName next harness n = displayName)) :
      Chosen toLowerCase fold previous next taken displayName model (.keep taken')
  /-- Or a new default name is taken, and the old one is free. -/
  | take {name harness : Text} {n : Nat} (has : model = some harness)
      (old : isDefaultAgentName fold displayName previous harness = true)
      (is : name = defaultAgentName next harness n)
      (falls : Falls toLowerCase (· ∈ taken.erase (toLowerCase displayName)) next harness
        (nameNumber displayName) n)
      (accepted : (checkName name .agent).isOk = true)
      (free : toLowerCase name ∉ taken.erase (toLowerCase displayName)) :
      Chosen toLowerCase fold previous next taken displayName model
        (.take name (taken.erase (toLowerCase displayName)))

/-- A choice is made, and what it may be. -/
theorem chooseName_chosen (lowers : LowersTail toLowerCase) (fold : Text → Text) {fuel : Nat}
    (enough : taken.card < fuel) (previous next displayName : Text) (model : Option Text) :
    ∃ choice, chooseName toLowerCase fold fuel previous next taken displayName model = some choice
      ∧ Chosen toLowerCase fold previous next taken displayName model choice := by
  cases model with
  | none => exact ⟨_, rfl, .keep (Finset.Subset.refl _) (Nat.le_succ _) (Finset.subset_insert _ _)
      fun _ is => by cases is⟩
  | some harness =>
    rw [chooseName]
    split
    · rename_i skipped
      refine ⟨_, rfl, .keep (Finset.Subset.refl _) (Nat.le_succ _) (Finset.subset_insert _ _)
        fun other is default_ least most => ?_⟩
      rw [Option.some.inj is] at skipped
      simp only [default_, Bool.not_true, Bool.false_or, Bool.or_eq_true, decide_eq_true_eq]
        at skipped
      omega
    · rename_i accepted
      have old : isDefaultAgentName fold displayName previous harness = true := by
        simp only [Bool.or_eq_true, Bool.not_eq_true', not_or, Bool.not_eq_false] at accepted
        exact accepted.1.1
      have erased := Finset.card_erase_le (s := taken) (a := toLowerCase displayName)
      -- The name with the old number, or the first one that is free.
      have found :
        ∃ name n, (if toLowerCase (defaultAgentName next harness (nameNumber displayName))
            ∈ taken.erase (toLowerCase displayName)
          then freeDefaultName toLowerCase (taken.erase (toLowerCase displayName))
            next harness fuel 1
          else some (defaultAgentName next harness (nameNumber displayName))) = some name
          ∧ name = defaultAgentName next harness n
          ∧ toLowerCase name ∉ taken.erase (toLowerCase displayName)
          ∧ Falls toLowerCase (· ∈ taken.erase (toLowerCase displayName)) next harness
            (nameNumber displayName) n := by
        split
        · rename_i held
          obtain ⟨name, found⟩ :=
            @freeDefaultName_isSome _ lowers (taken.erase (toLowerCase displayName)) fuel (by omega)
            next harness 1
          obtain ⟨free, n, positive, is, before⟩ := freeDefaultName_some found
          exact ⟨name, n, found, is, free, .inr ⟨held, positive, before⟩⟩
        · rename_i free
          exact ⟨_, _, rfl, rfl, free, .inl rfl⟩
      obtain ⟨name, n, found, is, free, falls⟩ := found
      refine ⟨_, Option.map_eq_some_iff.mpr ⟨name, found, rfl⟩, ?_⟩
      split
      · rename_i rejected
        refine .keep (subset_putBack _ _) (card_retaken _ _ _) (putBack_subset _ _)
          fun other has _ _ _ => ?_
        obtain rfl := Option.some.inj has
        exact ⟨n, falls, .inl (by rw [← is]; simpa using rejected)⟩
      · rename_i fine
        split
        · rename_i same
          rw [same]
          refine .keep (subset_putBack _ _) (card_retaken _ _ _) (putBack_subset _ _)
            fun other has _ _ _ => ?_
          obtain rfl := Option.some.inj has
          exact ⟨n, falls, .inr (is.symm.trans same)⟩
        · exact .take rfl old is falls (by simpa using fine) free

/-! ## One agent -/

/-- Only the agent that is written changes. -/
theorem write_agents {channel : Channel} {settled rest : List Agent} {m content : Agent}
    (here : channel.agents = settled ++ m :: rest) (same : content.userId = m.userId) :
    (channel.write content).agents = settled ++ content :: rest := by
  have distinct := channel.distinct
  rw [here, List.map_append, List.map_cons, List.nodup_middle, List.nodup_cons, List.mem_append]
    at distinct
  have others : ∀ {agents : List Agent}, m.userId ∉ agents.map (·.userId) →
      agents.map (fun agent => if agent.userId = content.userId then content else agent)
        = agents := by
    intro agents apart
    refine (List.map_congr_left fun agent inside => if_neg fun is => ?_).trans (List.map_id _)
    exact apart (List.mem_map.mpr ⟨agent, inside, is.trans same⟩)
  have written : (channel.write content).agents
      = channel.agents.map fun agent => if agent.userId = content.userId then content else agent :=
        rfl
  rw [written, here, List.map_append, List.map_cons, if_pos same.symm, others fun there =>
    distinct.1 (.inl there),
    others fun there => distinct.1 (.inr there)]

/-- A key that the owner has in a channel, or comes to have. -/
def OwnerKey (toLowerCase : Text → Text) (next : Text) (channel : Channel) (key : Text) : Prop :=
  channel.owner.isSome = true
    ∧ (key = toLowerCase next ∨ key = toLowerCase (channel.ownerName.getD next))

/-- A key that is another agent's among these, or the owner's. -/
def Held (toLowerCase : Text → Text) (owns : Text → Prop) (agents : List Agent)
    (userId key : Text) : Prop :=
  (∃ other ∈ agents, other.userId ≠ userId ∧ toLowerCase other.displayName = key) ∨ owns key

/-- The state of a cascade between two agents. -/
structure Between (toLowerCase : Text → Text) (owns : Text → Prop) (start channel : Channel)
    (taken : Finset Text) (settled rest : List Agent) : Prop where
  /-- Those settled and those who follow are the agents of the channel. -/
  agents : channel.agents = settled ++ rest
  roomId : channel.roomId = start.roomId
  owner : channel.owner = start.owner
  ownerName : channel.ownerName = start.ownerName
  /-- Each agent settled so far may have added one name. -/
  few : taken.card ≤ start.agents.length + 1 + settled.length
  /-- Whose names are taken. -/
  held : ∀ key ∈ taken, key ∈ keys toLowerCase (settled ++ rest) ∨ owns key
  /-- Those who follow are as they were. -/
  follow : ∀ agent ∈ rest, agent ∈ start.agents

/-- The agents' names differ, and all of them are taken. -/
structure Apart (toLowerCase : Text → Text) (channel : Channel) (taken : Finset Text) : Prop where
  held : ∀ key ∈ keys toLowerCase channel.agents, key ∈ taken
  apart : (keys toLowerCase channel.agents).Nodup

variable {owns : Text → Prop} {start channel : Channel} {settled rest : List Agent} {m : Agent}

/-- An agent that is left as it is, and may have its own name taken. -/
theorem Between.skip (between : Between toLowerCase owns start channel taken settled (m :: rest))
    {taken' : Finset Text} (few : taken'.card ≤ taken.card + 1)
    (less : taken' ⊆ insert (toLowerCase m.displayName) taken) :
    Between toLowerCase owns start channel taken' (settled ++ [m]) rest := by
  have bound := between.few
  have whole : settled ++ [m] ++ rest = settled ++ m :: rest := by simp
  refine ⟨by rw [between.agents, whole], between.roomId, between.owner, between.ownerName, ?_,
    fun key inside => ?_,
    fun agent later => between.follow agent (List.mem_cons_of_mem _ later)⟩
  · rw [List.length_append, List.length_singleton]
    omega
  · rw [whole]
    rcases Finset.mem_insert.mp (less inside) with own | before
    · refine .inl (List.mem_map.mpr ⟨m, ?_, own.symm⟩)
      exact List.mem_append_right _ List.mem_cons_self
    · exact between.held key before

/-- The names that are taken without an agent's own are those of the others. -/
theorem Between.others (between : Between toLowerCase owns start channel taken settled (m :: rest))
    {key : Text} (inside : key ∈ taken.erase (toLowerCase m.displayName)) :
    key ∈ keys toLowerCase (settled ++ rest) ∨ owns key := by
  obtain ⟨other, before⟩ := Finset.mem_erase.mp inside
  refine (between.held key before).imp_left fun among => ?_
  rw [keys, List.map_append, List.map_cons] at among
  rw [keys, List.map_append]
  rcases List.mem_append.mp among with left | right
  · exact List.mem_append_left _ left
  · exact List.mem_append_right _ ((List.mem_cons.mp right).resolve_left other)

/-- An agent that takes another name. -/
theorem Between.rename (between : Between toLowerCase owns start channel taken settled (m :: rest))
    (name : Text) :
    Between toLowerCase owns start (channel.write { m with displayName := name })
      (insert (toLowerCase name) (taken.erase (toLowerCase m.displayName)))
      (settled ++ [{ m with displayName := name }])
      rest := by
  -- One key goes and one comes, so there are no more keys than before.
  have bound := between.few
  have few := card_retaken taken (toLowerCase name) (toLowerCase m.displayName)
  -- The agents are those settled, the renamed one and the rest.
  have agents : (channel.write { m with displayName := name }).agents = settled
    ++ { m with displayName := name } :: rest :=
    write_agents between.agents rfl
  refine ⟨by rw [agents, List.append_assoc, List.singleton_append], between.roomId, between.owner,
    between.ownerName, ?_,
    fun key inside => ?_, fun agent later => between.follow agent (List.mem_cons_of_mem _ later)⟩
  · rw [List.length_append, List.length_singleton]
    omega
  -- A key is the new one or an old one, and each belongs to somebody.
  · rcases Finset.mem_insert.mp inside with own | other
    · refine .inl (List.mem_map.mpr ⟨{ m with displayName := name }, ?_, own.symm⟩)
      exact List.mem_append_left _ (List.mem_append_right _ (List.mem_singleton_self _))
    · refine (between.others other).imp_left fun among => ?_
      rw [keys, List.map_append] at among
      rw [keys, List.map_append, List.map_append]
      rcases List.mem_append.mp among with left | right
      · exact List.mem_append_left _ (List.mem_append_left _ left)
      · exact List.mem_append_right _ right

/-- What is taken without an agent's own name is held by others. -/
theorem Between.isHeld (between : Between toLowerCase owns start channel taken settled (m :: rest))
    {key : Text} (inside : key ∈ taken.erase (toLowerCase m.displayName)) :
    Held toLowerCase owns (start.agents ++ settled) m.userId key := by
  refine (between.others inside).imp_left fun among => ?_
  obtain ⟨other, there, is⟩ := List.mem_map.mp among
  have distinct := channel.distinct
  rw [between.agents, List.map_append, List.map_cons, List.nodup_middle, List.nodup_cons,
    ← List.map_append] at distinct
  refine ⟨other, ?_, fun same => distinct.1 (List.mem_map.mpr ⟨other, there, same⟩), is⟩
  rcases List.mem_append.mp there with left | right
  · exact List.mem_append_right _ left
  · exact List.mem_append_left _ (between.follow other (List.mem_cons_of_mem _ right))

/-- More names may be taken. -/
theorem Apart.more (apart : Apart toLowerCase channel taken) {taken' : Finset Text}
    (more : taken ⊆ taken') :
    Apart toLowerCase channel taken' :=
  ⟨fun key inside => more (apart.held key inside), apart.apart⟩

/-- An agent that takes a name which nobody else holds. -/
theorem Apart.rename (apart : Apart toLowerCase channel taken)
    (here : channel.agents = settled ++ m :: rest) {name : Text}
    (free : toLowerCase name ∉ taken.erase (toLowerCase m.displayName)) :
    Apart toLowerCase (channel.write { m with displayName := name })
      (insert (toLowerCase name) (taken.erase (toLowerCase m.displayName))) := by
  have agents : (channel.write { m with displayName := name }).agents = settled
    ++ { m with displayName := name } :: rest :=
    write_agents here rfl
  have distinct := apart.apart
  rw [keys, here, List.map_append, List.map_cons, List.nodup_middle, List.nodup_cons] at distinct
  -- The others do not hold the agent's old name, so theirs are still taken.
  have others : ∀ key ∈ keys toLowerCase settled ++ keys toLowerCase rest,
    key ∈ taken.erase (toLowerCase m.displayName) := by
    intro key inside
    refine Finset.mem_erase.mpr ⟨fun same => distinct.1 (same ▸ inside), apart.held key ?_⟩
    rw [keys, here, List.map_append, List.map_cons]
    rcases List.mem_append.mp inside with left | right
    · exact List.mem_append_left _ left
    · exact List.mem_append_right _ (List.mem_cons_of_mem _ right)
  refine ⟨?_, ?_⟩
  · intro key inside
    rw [keys, agents, List.map_append, List.map_cons] at inside
    rcases List.mem_append.mp inside with left | right
    · exact Finset.mem_insert_of_mem (others key (List.mem_append_left _ left))
    · rcases List.mem_cons.mp right with own | later
      · rw [own]
        exact Finset.mem_insert_self _ _
      · exact Finset.mem_insert_of_mem (others key (List.mem_append_right _ later))
  · rw [keys, agents, List.map_append, List.map_cons, List.nodup_middle, List.nodup_cons]
    exact ⟨fun inside => free (others _ inside), distinct.2⟩

/-- What a step of the cascade comes to: one agent's outcome, and names that stay apart if they
were. -/
def Settles (toLowerCase fold : Text → Text) (owns : Text → Prop) (faults : Faults)
    (previous next : Text) (start : Channel) (settled rest : List Agent) (m : Agent)
    (channel : Channel) (taken : Finset Text) (result : Channel × Finset Text) : Prop :=
  ∃ after, Outcome toLowerCase fold (Held toLowerCase owns (start.agents ++ settled) m.userId)
    faults previous next m after
    ∧ Between toLowerCase owns start result.1 result.2 (settled ++ [after]) rest
    ∧ (Apart toLowerCase channel taken → Apart toLowerCase result.1 result.2)

/-- One agent's part of the cascade comes to an end. -/
theorem settles_cascadeAgent (lowers : LowersTail toLowerCase) {fuel : Nat}
    (enough : 2 * start.agents.length + 1 < fuel)
    (all : start.agents.length = settled.length + (m :: rest).length)
    (between : Between toLowerCase owns start channel taken settled (m :: rest)) :
    ∃ result, cascadeAgent toLowerCase fold fuel faults previous next channel taken m = some result
      ∧ Settles toLowerCase fold owns faults previous next start settled rest m channel
        taken result := by
  have few := between.few
  rw [List.length_cons] at all
  obtain ⟨choice, chooses, chosen⟩ :=
    @chooseName_chosen _ taken lowers fold fuel (by omega) previous next m.displayName m.harness
  refine ⟨_, by rw [cascadeAgent, chooses, Option.map_some], ?_⟩
  cases chosen with
  | keep more few less reached =>
    refine ⟨m, ⟨rfl, fun changed => absurd rfl changed, fun harness has least most => ?_⟩,
      between.skip few less,
      fun apart => apart.more more⟩
    obtain ⟨n, falls, stays⟩ := reached harness has.1 has.2 least most
    refine ⟨n, falls.mono fun key => between.isHeld, ?_⟩
    -- The name is not accepted, or it is the one that the agent has.
    rcases stays with rejected | same
    · rw [rejected, Bool.false_and, if_neg Bool.false_ne_true]
    · rw [same, ite_self]
  | @take name harness n has old is falls accepted free =>
    have default_ : isDefaultAgentName fold name next harness = true :=
      is ▸ isDefaultAgentName_default fold next harness n
    have reached : ∀ after : Agent,
      (after.displayName = if faults.append m.userId = true then m.displayName else name) →
        ∀ other, HasDefault fold previous m other → 1 ≤ nameNumber m.displayName →
          nameNumber m.displayName ≤ Decode.maxSafeInteger →
          ∃ n, Falls toLowerCase (Held toLowerCase owns (start.agents ++ settled) m.userId)
            next other
              (nameNumber m.displayName) n
            ∧ after.displayName = if (checkName (defaultAgentName next other n) .agent).isOk
              && !faults.append m.userId
              then defaultAgentName next other n else m.displayName := by
      intro after named other there _ _
      obtain rfl := Option.some.inj (there.1.symm.trans has)
      refine ⟨n, falls.mono fun key => between.isHeld, ?_⟩
      rw [named, ← is, accepted]
      cases faults.append m.userId <;> rfl
    simp only
    split
    · rename_i fails
      exact ⟨m, ⟨rfl, fun changed => absurd rfl changed, reached m (if_pos fails).symm⟩,
        between.skip (card_retaken _ _ _) (putBack_subset _ _), fun apart =>
          apart.more (subset_putBack _ _)⟩
    · rename_i works
      refine ⟨{ m with displayName := name }, ⟨rfl, fun _ => ?_, reached _ (if_neg works).symm⟩,
        between.rename name,
        fun apart => apart.rename between.agents free⟩
      exact ⟨by simpa using works, harness, ⟨has, old⟩, ⟨has, default_⟩, accepted⟩

variable (fold faults previous next) in
/-- All agents' parts, one after the other. -/
theorem cascadeAgents_settles (lowers : LowersTail toLowerCase) {fuel : Nat}
    (enough : 2 * start.agents.length + 1 < fuel)
    (all : start.agents.length = settled.length + rest.length)
    (between : Between toLowerCase owns start channel taken settled rest) :
    ∃ channel' taken' after,
      cascadeAgents toLowerCase fold fuel faults previous next rest channel taken
        = some (channel', taken')
      ∧ List.Forall₂ (fun m => Outcome toLowerCase fold
          (Held toLowerCase owns (start.agents ++ (settled ++ after)) m.userId) faults previous
            next m) rest after
      ∧ Between toLowerCase owns start channel' taken' (settled ++ after) []
      ∧ (Apart toLowerCase channel taken → Apart toLowerCase channel' taken') := by
  -- By induction on the agents that follow; what is held before one of them is held in the end.
  induction rest generalizing channel taken settled with
  | nil => exact ⟨channel, taken, [], rfl, .nil, by rw [List.append_nil]; exact between, id⟩
  | cons m rest ih =>
    obtain ⟨⟨next_, taken_⟩, step, after, outcome, between_, apart⟩ :=
      settles_cascadeAgent lowers enough all between
    obtain ⟨channel', taken', others, steps, outcomes, last, aparts⟩ := ih
      (by rw [List.length_append, List.length_singleton, all, List.length_cons]; omega) between_
    rw [List.append_assoc, List.singleton_append] at outcomes last
    refine ⟨channel', taken', after :: others, ?_, .cons (outcome.mono fun key => ?_) outcomes,
      last,
      fun given => aparts (apart given)⟩
    · rw [cascadeAgents, step, Option.bind_some]
      exact steps
    · refine Or.imp_left fun ⟨other, there, apart, is⟩ => ⟨other, ?_, apart, is⟩
      rcases List.mem_append.mp there with before | done
      · exact List.mem_append_left _ before
      · exact List.mem_append_right _ (List.mem_append_left _ done)

/-! ## The owner -/

/-- What becomes of the owner in a channel. -/
structure OwnerOutcome (faults : Faults) (previous next : Text) (before after : Channel) :
    Prop where
  /-- The name that the log has changes to the new username, or nothing does. -/
  owner : after.owner = before.owner
    ∨ (after.owner = before.owner.map ({ · with displayName := next })
      ∧ faults.append Local.localOwnerUserId = false)
  /-- A name for this channel only stays, or is forgotten. -/
  ownerName : after.ownerName = before.ownerName ∨ (after.ownerName = none ∧ faults.remove = false)
  still : before.owner = none ∨ previous = next → after.owner = before.owner
    ∧ after.ownerName = before.ownerName

/-- The owner's name in the channel is no agent's, unless it is the new username. -/
def OwnerApart (toLowerCase : Text → Text) (next : Text) (channel : Channel) : Prop :=
  ∀ owner name, channel.owner = some owner → channel.ownerName = some name →
    toLowerCase name ∈ keys toLowerCase channel.agents → toLowerCase name = toLowerCase next

/-- A key that no agent has, or that is put in again, may be taken out. -/
private theorem Apart.retake (apart : Apart toLowerCase channel taken) {key other : Text}
    (unheld : other ∈ keys toLowerCase channel.agents → other = key) :
    Apart toLowerCase channel (insert key (taken.erase other)) := by
  refine ⟨fun held inside => ?_, apart.apart⟩
  by_cases same : held = other
  · rw [same, unheld (same ▸ inside)]
    exact Finset.mem_insert_self _ _
  · exact Finset.mem_insert_of_mem (Finset.mem_erase.mpr ⟨same, apart.held held inside⟩)

/-- Names stay apart in a channel with the same agents. -/
private theorem Apart.elsewhere {channel' : Channel} (apart : Apart toLowerCase channel taken)
    (same : channel'.agents = channel.agents) : Apart toLowerCase channel' taken :=
  ⟨by rw [same]; exact apart.held, by rw [same]; exact apart.apart⟩

variable (faults previous next) in
/-- The owner's part: the agents stay, and only the owner's keys come to be taken. -/
theorem cascadeOwner_settles (few : taken.card ≤ channel.agents.length + 1)
    (shown : ∀ owner, channel.owner = some owner →
      toLowerCase (channel.ownerName.getD next) ∈ taken)
    {owned : Channel × Finset Text}
    (result : cascadeOwner toLowerCase faults previous next channel taken = owned) :
    owned.1.agents = channel.agents ∧ owned.1.roomId = channel.roomId
      ∧ owned.2.card ≤ channel.agents.length + 1
      ∧ (∀ key ∈ owned.2, key ∈ taken ∨ OwnerKey toLowerCase next channel key)
      ∧ OwnerOutcome faults previous next channel owned.1
      ∧ (OwnerApart toLowerCase next channel → Apart toLowerCase channel taken →
        Apart toLowerCase owned.1 owned.2) := by
  -- Where nothing is due, the owner stays, and so do the names taken.
  have nothing : OwnerOutcome faults previous next channel channel :=
    ⟨.inl rfl, .inl rfl, fun _ => ⟨rfl, rfl⟩⟩
  subst result
  rw [cascadeOwner]
  cases present : channel.owner with
  | none => exact ⟨rfl, rfl, few, fun _ => .inl, nothing, fun _ => id⟩
  | some owner =>
    simp only
    split
    · exact ⟨rfl, rfl, few, fun _ => .inl, nothing, fun _ => id⟩
    · rename_i changes
      -- The key of the old name is there to be given up, so the count does not grow.
      have held := shown owner present
      have erased := Finset.card_erase_of_mem held
      have some_ := Finset.card_pos.mpr ⟨_, held⟩
      have inserted := Finset.card_insert_le (toLowerCase next)
        (taken.erase (toLowerCase (channel.ownerName.getD next)))
      have retaken :
        (insert (toLowerCase next) (taken.erase (toLowerCase (channel.ownerName.getD next)))).card
          ≤ channel.agents.length + 1 := by omega
      have owned : ∀ key ∈ insert (toLowerCase next)
        (taken.erase (toLowerCase (channel.ownerName.getD next))),
          key ∈ taken ∨ OwnerKey toLowerCase next channel key := by
        intro key inside
        rcases Finset.mem_insert.mp inside with new | other
        · exact .inr ⟨by rw [present]; rfl, .inl new⟩
        · exact .inl (Finset.mem_of_mem_erase other)
      -- The owner is named and the name changes, so the steps are due.
      have moves : ∀ {P : Prop}, channel.owner = none ∨ previous = next → P := fun still => by
        rcases still with gone | same
        · rw [present] at gone
          cases gone
        · exact absurd same changes
      -- The old key goes and the new one comes, which keeps the names apart.
      have retake : OwnerApart toLowerCase next channel → Apart toLowerCase channel taken →
          Apart toLowerCase channel (insert (toLowerCase next)
            (taken.erase (toLowerCase (channel.ownerName.getD next)))) := by
        intro ownerApart apart
        refine apart.retake fun inside => ?_
        cases own : channel.ownerName with
        | none => rfl
        | some name =>
          rw [own, Option.getD_some] at inside
          exact ownerApart owner name present own inside
      -- With no name of its own the owner only gets a label; with one, the name goes first.
      cases own : channel.ownerName with
      | none =>
        rw [own] at retaken retake owned
        simp only
        split
        · exact ⟨rfl, rfl, few, fun _ => .inl, nothing, fun _ => id⟩
        · rename_i works
          refine ⟨rfl, rfl, retaken, owned, ⟨.inr ⟨?_, by simpa using works⟩, .inl own.symm, moves⟩,
            fun ownerApart apart => (retake ownerApart apart).elsewhere rfl⟩
          rw [present]
          rfl
      | some name =>
        rw [own] at retaken retake owned
        simp only
        split
        -- The name may stay where its removal fails, and then nothing is taken anew.
        · exact ⟨rfl, rfl, few, fun _ => .inl, nothing, fun _ => id⟩
        · rename_i removes
          have removed : faults.remove = false := by simpa using removes
          split
          · exact ⟨rfl, rfl, retaken, owned, ⟨.inl present.symm, .inr ⟨rfl, removed⟩, moves⟩,
              fun ownerApart apart => (retake ownerApart apart).elsewhere rfl⟩
          · split
            · exact ⟨rfl, rfl, few, fun _ => .inl, ⟨.inl present.symm, .inr ⟨rfl, removed⟩, moves⟩,
                fun _ apart => apart.elsewhere rfl⟩
            · rename_i works
              refine ⟨rfl, rfl, retaken, owned,
                ⟨.inr ⟨?_, by simpa using works⟩, .inr ⟨rfl, removed⟩, moves⟩,
                fun ownerApart apart => (retake ownerApart apart).elsewhere rfl⟩
              rw [present]
              rfl

/-! ## Channels -/

/-- What becomes of a channel. -/
structure ChannelOutcome (toLowerCase fold : Text → Text) (faults : Faults) (previous next : Text)
    (before after : Channel) :
    Prop where
  roomId : after.roomId = before.roomId
  owner : OwnerOutcome faults previous next before after
  /-- What becomes of each agent, while the others' names and the owner's are held. -/
  agents : List.Forall₂ (fun m => Outcome toLowerCase fold
    (Held toLowerCase (OwnerKey toLowerCase next before) (before.agents ++ after.agents) m.userId)
      faults previous next m) before.agents after.agents
  apart : (keys toLowerCase before.agents).Nodup → OwnerApart toLowerCase next before →
    (keys toLowerCase after.agents).Nodup

variable (fold faults previous next) in
/-- A cascade of one channel ends with what is due to its owner and to each agent. -/
theorem cascadeChannel_outcome (lowers : LowersTail toLowerCase) {fuel : Nat}
    (enough : 2 * channel.agents.length + 1 < fuel) :
    ∃ after, cascadeChannel toLowerCase fold fuel faults previous next channel = some after
      ∧ ChannelOutcome toLowerCase fold faults previous next channel after := by
  -- The names in use are those of the agents and at most one of the owner.
  have few : ((channel.names next).map toLowerCase).toFinset.card ≤ channel.agents.length + 1 := by
    refine (List.toFinset_card_le _).trans ?_
    rw [List.length_map, Channel.names, List.length_append, List.length_map]
    cases channel.owner with
    | none => simp
    | some owner => simp [Nat.add_comm]
  -- Each of their keys belongs to an agent, or to the owner.
  have keys_ : ∀ key ∈ ((channel.names next).map toLowerCase).toFinset,
      key ∈ keys toLowerCase channel.agents ∨ OwnerKey toLowerCase next channel key := by
    intro key inside
    rw [List.mem_toFinset, Channel.names, List.map_append, List.mem_append, List.map_map] at inside
    refine inside.symm.imp_right fun owners => ?_
    cases present : channel.owner with
    | none =>
      rw [present] at owners
      cases owners
    | some owner =>
      rw [present] at owners
      exact ⟨by rw [present]; rfl, .inr (by simpa using owners)⟩
  -- The owner comes first, and his step keeps the count and the owners of the keys.
  obtain ⟨agents, roomId, few', taken', owner, ownerApart⟩ :=
    cascadeOwner_settles faults previous next few (by
      intro owner present
      rw [List.mem_toFinset, Channel.names, present, List.map_append]
      exact List.mem_append_left _ (List.mem_cons_self)) rfl
  -- The agents start from what the owner's step left, with none of them settled.
  have between : Between toLowerCase (OwnerKey toLowerCase next channel)
    (cascadeOwner toLowerCase faults previous next channel
      ((channel.names next).map toLowerCase).toFinset).1 _ _ [] channel.agents :=
    ⟨agents, rfl, rfl, rfl, by rw [agents]; exact few', fun key inside =>
      (taken' key inside).elim (keys_ key) .inr,
      fun agent inside => by rw [agents]; exact inside⟩
  -- Each agent is then settled in turn, and nothing of the owner changes any more.
  obtain ⟨after, taken, others, steps, outcomes, last, aparts⟩ :=
    cascadeAgents_settles fold faults previous next lowers
    (by rw [agents]; exact enough) (by rw [agents, List.length_nil, Nat.zero_add]) between
  have ended := last.agents
  rw [List.nil_append, List.append_nil] at ended
  rw [agents, List.nil_append] at outcomes
  refine ⟨after, by rw [cascadeChannel, steps, Option.map_some], last.roomId.trans roomId,
    ?_, by rw [ended]; exact outcomes, ?_⟩
  · exact ⟨by rw [last.owner]; exact owner.owner, by rw [last.ownerName]; exact owner.ownerName,
      by rw [last.owner, last.ownerName]; exact owner.still⟩
  -- Where the names were distinct and none was the owner's, they stay distinct.
  · intro distinct unshared
    refine (aparts (ownerApart unshared ⟨fun key inside => ?_, distinct⟩)).apart
    rw [List.mem_toFinset, Channel.names, List.map_append, List.mem_append]
    right
    rw [List.map_map]
    exact inside

/-! ## More fuel changes nothing -/

/-- More fuel finds the same name. -/
theorem freeDefaultName_mono {username harness name : Text} {fuel fuel' k : Nat}
    (more : fuel ≤ fuel')
    (found : freeDefaultName toLowerCase taken username harness fuel k = some name) :
    freeDefaultName toLowerCase taken username harness fuel' k = some name := by
  induction fuel generalizing fuel' k with
  | zero => cases found
  | succ fuel ih =>
    obtain ⟨fuel', rfl⟩ :=
      Nat.exists_eq_add_of_le' (Nat.le_trans (Nat.succ_le_succ (Nat.zero_le _)) more)
    rw [freeDefaultName] at found ⊢
    split
    · rename_i here
      rw [if_pos here] at found
      exact ih (Nat.le_of_succ_le_succ more) found
    · rename_i free
      rwa [if_neg free] at found

/-- More fuel leads to the same choice. -/
theorem chooseName_mono {fuel fuel' : Nat} (more : fuel ≤ fuel') {model : Option Text}
    {choice : Choice}
    (chooses : chooseName toLowerCase fold fuel previous next taken displayName model
      = some choice) :
    chooseName toLowerCase fold fuel' previous next taken displayName model = some choice := by
  -- Only a default name is searched for, and more fuel finds the same one.
  cases model with
  | none => exact chooses
  | some harness =>
    rw [chooseName] at chooses ⊢
    split
    · rename_i skipped
      rwa [if_pos skipped] at chooses
    · rename_i accepted
      rw [if_neg accepted, Option.map_eq_some_iff] at chooses
      obtain ⟨name, found, is⟩ := chooses
      refine Option.map_eq_some_iff.mpr ⟨name, ?_, is⟩
      split
      · rename_i held
        rw [if_pos held] at found
        exact freeDefaultName_mono more found
      · rename_i free
        rwa [if_neg free] at found

/-- More fuel settles an agent in the same way. -/
theorem cascadeAgent_mono {fuel fuel' : Nat} (more : fuel ≤ fuel') {result : Channel × Finset Text}
    (settled : cascadeAgent toLowerCase fold fuel faults previous next channel taken m
      = some result) :
    cascadeAgent toLowerCase fold fuel' faults previous next channel taken m = some result := by
  rw [cascadeAgent, Option.map_eq_some_iff] at settled ⊢
  obtain ⟨choice, chooses, is⟩ := settled
  exact ⟨choice, chooseName_mono more chooses, is⟩

/-- More fuel settles the agents in the same way. -/
theorem cascadeAgents_mono {fuel fuel' : Nat} (more : fuel ≤ fuel') {result : Channel × Finset Text}
    (settled : cascadeAgents toLowerCase fold fuel faults previous next rest channel taken
      = some result) :
    cascadeAgents toLowerCase fold fuel' faults previous next rest channel taken = some result := by
  induction rest generalizing channel taken with
  | nil => exact settled
  | cons m rest ih =>
    rw [cascadeAgents, Option.bind_eq_some_iff] at settled ⊢
    obtain ⟨⟨next_, taken_⟩, step, others⟩ := settled
    exact ⟨_, cascadeAgent_mono more step, ih others⟩

/-- More fuel settles a channel in the same way. -/
theorem cascadeChannel_mono {fuel fuel' : Nat} (more : fuel ≤ fuel') {after : Channel}
    (settled : cascadeChannel toLowerCase fold fuel faults previous next channel = some after) :
    cascadeChannel toLowerCase fold fuel' faults previous next channel = some after := by
  rw [cascadeChannel, Option.map_eq_some_iff] at settled ⊢
  obtain ⟨result, steps, is⟩ := settled
  exact ⟨result, cascadeAgents_mono more steps, is⟩

/-! ## The cascade -/

/-- A fallible map over a list gives the outputs of the single inputs, in order. -/
private theorem mapM_eq_some {α β : Type} {f : α → Option β} {inputs : List α} {outputs : List β} :
    inputs.mapM f = some outputs
      ↔ List.Forall₂ (fun input output => f input = some output) inputs outputs := by
  induction inputs generalizing outputs with
  | nil => simp [eq_comm]
  | cons input rest ih =>
    simp only [List.mapM_cons, Option.bind_eq_bind, Option.bind_eq_some_iff, Option.pure_def,
      Option.some.injEq]
    constructor
    · rintro ⟨output, one, others, tail, rfl⟩
      exact .cons one (ih.mp tail)
    · intro all
      cases all with
      | cons one tail => exact ⟨_, one, _, ih.mpr tail, rfl⟩

/-- Outputs at places where two functions agree are the same. -/
private theorem getElem?_of_agree {α β : Type} {f g : α → Option β} {inputs : List α}
    {outputs outputs' : List β}
    (one : List.Forall₂ (fun input output => f input = some output) inputs outputs)
    (two : List.Forall₂ (fun input output => g input = some output) inputs outputs') {i : Nat}
    {input : α} (here : inputs[i]? = some input) (agree : f input = g input) :
    outputs[i]? = outputs'[i]? := by
  -- Both calls give their outputs in the order of the inputs, so the induction is on one of them.
  induction one generalizing outputs' i with
  | nil => cases here
  | cons first rest ih =>
    cases two with
    | cons first' rest' =>
      cases i with
      | zero =>
        cases here
        rw [agree, first'] at first
        rw [List.getElem?_cons_zero, List.getElem?_cons_zero]
        exact first.symm
      | succ i => exact ih rest' here

/-- There is fuel enough for all channels. -/
private theorem exists_fuel (channels : List Channel) (least : Nat) :
    ∃ fuel, least ≤ fuel ∧ ∀ channel ∈ channels, 2 * channel.agents.length + 1 < fuel := by
  induction channels with
  | nil => exact ⟨least, Nat.le_refl _, fun _ inside => by cases inside⟩
  | cons first rest ih =>
    obtain ⟨fuel, above, others⟩ := ih
    refine ⟨fuel + (2 * first.agents.length + 2), by omega, fun channel inside => ?_⟩
    rcases List.mem_cons.mp inside with here | later
    · rw [here]
      omega
    · have := others channel later
      omega

/-- A cascade ends, whatever fails. In every channel only the owner's name and default names of the
old username change, each to a default name of the new one that is accepted; an append that fails
leaves its member's name; the agents' names stay apart, unless the name forgotten for the owner was
an agent's too; and what fails in one channel changes nothing in the others. -/
theorem cascade_outcome (lowers : LowersTail toLowerCase) (fold : Text → Text)
    (faults : Text → Faults) (previous next : Text) (channels : List Channel) :
    ∃ after, (∀ fuel, (∀ channel ∈ channels, 2 * channel.agents.length + 1 < fuel) →
        cascade toLowerCase fold fuel faults previous next channels = some after)
      ∧ List.Forall₂ (fun channel channel' =>
        ChannelOutcome toLowerCase fold (faults channel.roomId) previous next channel channel')
          channels after
      ∧ ∀ fuel faults' after', cascade toLowerCase fold fuel faults' previous next channels
        = some after' →
        ∀ (i : Nat) channel, channels[i]? = some channel →
        faults' channel.roomId = faults channel.roomId →
          after'[i]? = after[i]? := by
  have each : ∀ channel : Channel, ∃ after, (∀ fuel, 2 * channel.agents.length + 1 < fuel →
      cascadeChannel toLowerCase fold fuel (faults channel.roomId) previous next channel
        = some after)
      ∧ ChannelOutcome toLowerCase fold (faults channel.roomId) previous next channel after := by
    intro channel
    obtain ⟨after, settled, outcome⟩ :=
      cascadeChannel_outcome fold (faults channel.roomId) previous next lowers
      (Nat.lt_succ_self (2 * channel.agents.length + 1))
    exact ⟨after, fun fuel enough => cascadeChannel_mono enough settled, outcome⟩
  choose result settles outcome using each
  have all : ∀ fuel, (∀ channel ∈ channels, 2 * channel.agents.length + 1 < fuel) →
    List.Forall₂ (fun channel channel' =>
      cascadeChannel toLowerCase fold fuel (faults channel.roomId) previous next channel
        = some channel') channels
      (channels.map result) := by
    intro fuel enough
    rw [List.forall₂_map_right_iff]
    exact List.forall₂_same.mpr fun channel inside => settles channel fuel (enough channel inside)
  refine ⟨channels.map result, fun fuel enough => mapM_eq_some.mpr (all fuel enough), ?_, ?_⟩
  · rw [List.forall₂_map_right_iff]
    exact List.forall₂_same.mpr fun channel _ => outcome channel
  · intro fuel faults' after' settled i channel here agree
    -- With fuel for both, the two cascades do the same in the channel.
    obtain ⟨fuel', above, enough⟩ := exists_fuel channels fuel
    have more : List.Forall₂ (fun channel channel' =>
        cascadeChannel toLowerCase fold fuel' (faults' channel.roomId) previous next channel
          = some channel') channels after' :=
      (mapM_eq_some.mp settled).imp fun _ _ step => cascadeChannel_mono above step
    exact getElem?_of_agree more (all fuel' enough) here (by rw [agree])

/-- Lower case for names, which are ASCII. -/
private def asciiLowerCase (s : Text) : Text := s.map asciiLower

/-- Lower-casing ASCII letters lets the digits behind a name be. -/
private theorem asciiLowerCase_tail : LowersTail asciiLowerCase := fun _ _ _ _ => List.map_append

private def bob (digit : String) (name : String) : Agent :=
  ⟨lit ("@agent-0000000" ++ digit ++ ":local"), .join, lit name, some (lit "qwen"), .sync⟩

/-- Two agents whose names have the same number. -/
private def sameNumber : Channel :=
  ⟨lit "!room:local", some ⟨.join, lit "ann"⟩, none,
    [bob "1" "ann-Qwen-2", bob "2" "ann-Qwen-02"], by decide⟩

/-- An agent that shares the owner's name in the channel, and one with a default name. -/
private def sharedName : Channel :=
  ⟨lit "!room:local", some ⟨.join, lit "bob-Qwen"⟩, some (lit "bob-Qwen"),
    [bob "1" "bob-Qwen", bob "2" "ann-Qwen"], by decide⟩

private def namesAfter (failing : Option Text) (channel : Channel) : Option (List Text) :=
  (cascadeChannel asciiLowerCase (fun point => point.map foldUnit) 6 ⟨fun userId =>
    failing = some userId, false⟩ (lit "ann")
    (lit "bob") channel).map fun after => after.agents.map (·.displayName)

/-- An append that fails leaves its number to the next agent, and two agents come to share the name
that the owner had. -/
theorem failure_renumbers :
    (namesAfter none sameNumber = some [lit "bob-Qwen-2", lit "bob-Qwen"]
      ∧ namesAfter (some (bob "1" "ann-Qwen-2").userId) sameNumber = some [lit "ann-Qwen-2",
        lit "bob-Qwen-2"])
    ∧ ((keys asciiLowerCase sharedName.agents).Nodup
      ∧ namesAfter none sharedName = some [lit "bob-Qwen", lit "bob-Qwen"]) := by
  decide +kernel

/-- Both agents of the first channel are renamed, though their names have the same number. -/
theorem cascade_outcome_sameNumber :
    ∃ after, cascade asciiLowerCase (fun point => point.map foldUnit) 6 (fun _ =>
      ⟨fun _ => false, false⟩) (lit "ann") (lit "bob")
        [sameNumber] = some [after]
      ∧ (keys asciiLowerCase after.agents).Nodup := by
  obtain ⟨after, settled, outcomes, -⟩ :=
    cascade_outcome asciiLowerCase_tail (fun point => point.map foldUnit)
    (fun _ => ⟨fun _ => false, false⟩) (lit "ann") (lit "bob") [sameNumber]
  have result := settled 6 (by decide)
  cases outcomes with
  | cons first rest =>
    cases rest
    exact ⟨_, result, first.apart (by decide) fun owner name present own => by cases own⟩

end Khala.Cascade
