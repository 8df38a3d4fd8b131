import Khala.Contracts.LocalEvent
import Khala.Contracts.Names
import Khala.Contracts.TextSize
import Khala.Agent.ListeningMode
import Mathlib.Data.Finset.Card

/-! A new username reaches the channels: the owner's name in them, and the agents that have a
default name. -/

namespace Khala.Cascade

open Js

inductive Membership
  | invite
  | join
deriving DecidableEq, Repr

/-- The owner in a channel, as the channel's log has it. -/
structure OwnerMember where
  membership : Membership
  displayName : Text
deriving DecidableEq, Repr

/-- An agent in a channel. -/
structure Agent where
  userId : Text
  membership : Membership
  displayName : Text
  harness : Option Text
  listeningMode : ListeningMode
deriving DecidableEq, Repr

/-- A channel with those who are in it, the agents in the order in which they first came. -/
structure Channel where
  roomId : Text
  owner : Option OwnerMember
  /-- The owner's name in this channel only. -/
  ownerName : Option Text
  agents : List Agent
  distinct : (agents.map (·.userId)).Nodup

/-- A membership event with this content was appended. -/
def Channel.write (channel : Channel) (content : Agent) : Channel where
  roomId := channel.roomId
  owner := channel.owner
  ownerName := channel.ownerName
  agents := channel.agents.map fun agent => if agent.userId = content.userId then content else agent
  -- The identifiers are those before, so they are different still.
  distinct := by
    have same : (channel.agents.map fun agent => if agent.userId = content.userId then content
      else agent).map (·.userId)
        = channel.agents.map (·.userId) := by
      rw [List.map_map]
      refine List.map_congr_left fun agent _ => ?_
      rw [Function.comp_apply]
      split
      · rename_i is
        exact is.symm
      · rfl
    rw [same]
    exact channel.distinct

/-- What fails in a channel: appends of the members' events, and the removal of the file with the
owner's name. -/
structure Faults where
  append : Text → Bool
  remove : Bool

variable (toLowerCase fold : Text → Text)

/-- The first of the default names, from a number on, that is not taken. -/
def freeDefaultName (taken : Finset Text) (username harness : Text) : Nat → Nat → Option Text
  | 0, _ => none
  | fuel + 1, k =>
    let name := defaultAgentName username harness k
    if toLowerCase name ∈ taken then freeDefaultName taken username harness fuel (k + 1)
      else some name

/-- The owner's part: a channel's own name for the owner is forgotten, or the new name is appended.
-/
def cascadeOwner (faults : Faults) (previous next : Text) (channel : Channel)
    (taken : Finset Text) : Channel × Finset Text :=
  match channel.owner with
  | none => (channel, taken)
  | some owner =>
    if previous = next then (channel, taken)
    else
      let shown := channel.ownerName.getD next
      let retaken := insert (toLowerCase next) (taken.erase (toLowerCase shown))
      let named :=
        { channel with owner := some { owner with displayName := next }, ownerName := none }
      match channel.ownerName with
      | some _ =>
        if faults.remove then (channel, taken)
        -- Nothing is appended when the same name shows as before.
        else if shown = next then ({ channel with ownerName := none }, retaken)
        else if faults.append Local.localOwnerUserId
          then ({ channel with ownerName := none }, taken)
        else (named, retaken)
      | none => if faults.append Local.localOwnerUserId then (channel, taken) else (named, retaken)

/-- What is to become of one agent's name: it stays, or another is taken with the agent's own no
longer held. -/
inductive Choice
  | keep (taken : Finset Text)
  | take (name : Text) (without : Finset Text)

/-- The choice for an agent with a name and a harness, while some names are taken. -/
def chooseName (fuel : Nat) (previous next : Text) (taken : Finset Text) (displayName : Text) :
    Option Text → Option Choice
  -- Without a model there is no default name.
  | none => some (.keep taken)
  | some harness =>
    let n := nameNumber displayName
    -- The name was chosen, or its number cannot be read.
    if !isDefaultAgentName fold displayName previous harness || n < 1 || Decode.maxSafeInteger < n
      then some (.keep taken)
    else
      let oldKey := toLowerCase displayName
      -- The agent's own name does not stand in its way.
      let without := taken.erase oldKey
      let first := defaultAgentName next harness n
      let found := if toLowerCase first ∈ without
        then freeDefaultName toLowerCase without next harness fuel 1 else some first
      found.map fun name =>
        -- A name that is refused leaves the old one taken.
        if !(checkName name .agent).isOk then .keep (insert oldKey without)
        else if name = displayName then .keep (insert (toLowerCase name) without)
        else .take name without

/-- One agent's part, as the agent was before the cascade. -/
def cascadeAgent (fuel : Nat) (faults : Faults) (previous next : Text) (channel : Channel)
    (taken : Finset Text) (m : Agent) :
    Option (Channel × Finset Text) :=
  (chooseName toLowerCase fold fuel previous next taken m.displayName m.harness).map fun
    | .keep taken => (channel, taken)
    | .take name without =>
      -- The name of an agent whose append fails stays held.
      if faults.append m.userId then (channel, insert (toLowerCase m.displayName) without)
      else (channel.write { m with displayName := name }, insert (toLowerCase name) without)

def cascadeAgents (fuel : Nat) (faults : Faults) (previous next : Text) :
    List Agent → Channel → Finset Text → Option (Channel × Finset Text)
  | [], channel, taken => some (channel, taken)
  | m :: rest, channel, taken =>
    (cascadeAgent toLowerCase fold fuel faults previous next channel taken m).bind
      fun (channel, taken) =>
      cascadeAgents fuel faults previous next rest channel taken

/-- The names that the members of a channel show, when the owner's username is the new one. -/
def Channel.names (channel : Channel) (username : Text) : List Text :=
  (channel.owner.map fun _ => channel.ownerName.getD username).toList ++ channel.agents.map
    (·.displayName)

def cascadeChannel (fuel : Nat) (faults : Faults) (previous next : Text) (channel : Channel) :
    Option Channel :=
  let taken := ((channel.names next).map toLowerCase).toFinset
  let owned := cascadeOwner toLowerCase faults previous next channel taken
  (cascadeAgents toLowerCase fold fuel faults previous next channel.agents owned.1 owned.2).map
    Prod.fst

/-- `cascade`, over the channels in the order in which they are listed; the new username is saved
before. -/
def cascade (fuel : Nat) (faults : Text → Faults) (previous next : Text) (channels : List Channel) :
    Option (List Channel) :=
  channels.mapM fun channel =>
    cascadeChannel toLowerCase fold fuel (faults channel.roomId) previous next channel

end Khala.Cascade
