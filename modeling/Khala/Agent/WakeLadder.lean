import Mathlib.Data.List.Sort
import Khala.Agent.Inbox
import Khala.Agent.ListeningMode
import Khala.Agent.WakeJournal
import Khala.Js.Members

/-! The wake ladder: one evaluation after another decides whether an idle agent is woken for what it
has not read. -/

namespace Khala.WakeLadder

open Js

/-! ## What an evaluation is told -/

/-- The fields of `session.json` that the ladder reads. -/
structure ChannelSession where
  roomId : Text
  userId : Text
deriving DecidableEq, Repr

/-- One of the listed channels, with everything the ladder reads of its files. -/
structure FoundChannel where
  /-- The channel's key in the state directory. -/
  key : Text
  roomId : Text
  /-- Whether it lies in the old layout. -/
  legacy : Bool
  session : Option ChannelSession
  /-- `joinedAt` of `channel.json`. -/
  joinedAt : Option Text
  mode : ListeningMode
  displayName : Option Text
  /-- What is unread and was not announced by a wake. -/
  unwoken : List InboxEntry
  cursor : Cursor

/-- What a channel's key stands for; another one tells that the channel was left and joined again.
-/
structure ChannelIdentity where
  roomId : Text
  userId : Option Text
  joinedAt : Option Text
deriving DecidableEq, Repr

def FoundChannel.identity (channel : FoundChannel) : ChannelIdentity where
  roomId := (channel.session.map (·.roomId)).getD channel.roomId
  userId := channel.session.map (·.userId)
  joinedAt := if channel.legacy then none else channel.joinedAt

/-- A channel that may wake the agent. -/
structure Eligible where
  key : Text
  mode : ListeningMode
  messages : Nat
  cursor : Cursor

structure LadderActivity where
  idle : Bool
  /-- `Date.parse(activity.updatedAt)`, which is a number wherever an activity was read. -/
  updatedAt : Int

/-- How `driver.wake` ends. -/
inductive WakeAnswer
  | returned
  | skipped
  | failed
deriving DecidableEq, Repr

/-- Everything one evaluation waits for, in the order in which it asks. What fails is `none`, or
`false` where there is nothing to tell. -/
structure Answers where
  /-- The drivers verify, and the attempts of those that need it settle. -/
  settled : Bool
  driverStates : Option (Map Text WakeJournal.WakeDriverState)
  channels : Option (List FoundChannel)
  activity : Option LadderActivity
  /-- The time at which the evaluation looks at the last wake. -/
  now : Int
  stoppedWhenIdle : Bool
  /-- The modes of the eligible channels, read again one after the other. -/
  rereadMode : Nat → Option ListeningMode
  stoppedBeforeDriver : Bool
  /-- The driver that `chooseWakeDriver` finds: whether its attempts are verified. -/
  driver : Option (Option Bool)
  stoppedAfterDriver : Bool
  stillEligible : Option Bool
  attemptAt : Int
  recorded : Bool
  stillEligibleRecorded : Option Bool
  stoppedBeforeWake : Bool
  wake : WakeAnswer
  /-- The attempt of a skipped wake is taken out of the journal. -/
  cancelled : Bool

/-! ## The ladder's memory -/

/-- The eligible channels' keys, each with where its wakes start; the code holds it as its JSON
text. -/
abbrev BudgetKey : Type := List (Text × Nat)

structure Ladder where
  pending : Option Int
  wakesAtCount : Map BudgetKey Nat
  identities : Map Text ChannelIdentity
  disabledDrivers : List Text

def Ladder.initial : Ladder := ⟨none, Map.empty, Map.empty, []⟩

/-- `wakesAtCount.get(key) ?? 0`. -/
def Ladder.wakesAt (ladder : Ladder) (key : BudgetKey) : Nat := (ladder.wakesAtCount.get key).getD 0

/-- Drivers found disabled for the first time clear the budget: the next driver gets its own. -/
def Ladder.noteDisabled (ladder : Ladder) : List (Text × WakeJournal.WakeDriverState) → Ladder
  | [] => ladder
  | (id, state) :: rest =>
    if state.disabled && !ladder.disabledDrivers.contains id then
      { ladder with disabledDrivers := ladder.disabledDrivers ++ [id], wakesAtCount := .empty, pending := none : Ladder }.noteDisabled
        rest
    else ladder.noteDisabled rest

variable (wakesAgent : InboxEntry → ListeningMode → Option Text → Bool)

def FoundChannel.eligible (channel : FoundChannel) : Option Eligible :=
  if channel.mode = .mute then none
  else some {
    key := channel.key
    mode := channel.mode
    messages := (channel.unwoken.filter fun entry =>
      some entry.sender ≠ channel.session.map (·.userId)
        && wakesAgent entry channel.mode channel.displayName).length
    cursor := channel.cursor }

/-- `currentIdentities`. -/
def currentIdentities (channels : List FoundChannel) : Map Text ChannelIdentity :=
  channels.foldl (fun identities channel => identities.set channel.key channel.identity) .empty

/-- The keys that stand for another channel than before, are new or are gone. -/
def changedKeys (identities current : Map Text ChannelIdentity) : List Text :=
  ((current.entries.filter fun entry => identities.get entry.1 ≠ some entry.2).map (·.1))
    ++ identities.keys.filter fun key => key ∉ current.keys

/-- Moves the wakes counted for one budget key to what is left of the key. -/
def projectEntry (changed : List Text) (counts : Map BudgetKey Nat) (key : BudgetKey)
    (wakes : Nat) : Map BudgetKey Nat :=
  if key.all fun pair => pair.1 ∉ changed then counts
  else
    let deleted := counts.delete key
    let remaining := key.filter fun pair => pair.1 ∉ changed
    if remaining = [] then deleted
    else deleted.set remaining (max wakes ((deleted.get remaining).getD 0))

/-- Takes the changed channels out of every budget key. -/
def projectCounts (changed : List Text) (counts : Map BudgetKey Nat) : Map BudgetKey Nat :=
  counts.entries.foldl (fun counts entry => projectEntry changed counts entry.1 entry.2) counts

/-- The pairs in the order of their keys, which are hexadecimal digits. -/
def budgetKeyOf (eligible : List Eligible) : BudgetKey :=
  (eligible.map fun item => (item.key, wakeStart item.cursor)).insertionSort fun a b =>
    textLe a.1 b.1 = true

/-- What an evaluation does as soon as it knows the channels: the identities are brought up to date,
and the budget is carried over where they changed. -/
def Ladder.carryOver (ladder : Ladder) (channels : List FoundChannel) (eligible : List Eligible) :
    Ladder :=
  let current := currentIdentities channels
  let changed := changedKeys ladder.identities current
  let kept := changed.foldl Map.delete ladder.identities
  let identities :=
    current.entries.foldl (fun identities entry => identities.set entry.1 entry.2) kept
  -- Where nobody joined or left, the counts stay.
  if changed = [] then { ladder with identities }
  else
    let counts := projectCounts changed ladder.wakesAtCount
    let budgetKey := budgetKeyOf eligible
    -- The count is that of the channels which stay.
    let inheritedKey := budgetKey.filter fun pair => pair.1 ∉ changed
    let newUnread := eligible.any fun item => item.key ∈ changed && 0 < item.messages
    let oldUnread := eligible.any fun item => item.key ∉ changed && 0 < item.messages
    { ladder with
      identities
      -- Something new to read gives a new budget.
      wakesAtCount :=
        counts.set budgetKey (if newUnread then 0 else (counts.get inheritedKey).getD 0)
      -- An attempt is pending only for what was unread before.
      pending := if newUnread || !oldUnread then none else ladder.pending }

/-! ## One evaluation -/

/-- The call of the driver, and what is counted for it. -/
def Ladder.callDriver (ladder : Ladder) (answers : Answers) (budgetKey : BudgetKey) (wakes : Nat)
    (verified : Bool) :
    Ladder × Option WakeAnswer :=
  let called : Ladder :=
    { ladder with pending := some answers.attemptAt,
                  wakesAtCount := ladder.wakesAtCount.set budgetKey (wakes + 1) }
  match answers.wake with
  | .skipped =>
    if verified && !answers.cancelled then (called, some .skipped)
    else ({ called with pending := none, wakesAtCount := called.wakesAtCount.set budgetKey wakes },
      some .skipped)
  | answer => (called, some answer)

/-- Records the attempt where it is verified, and calls the driver. -/
def Ladder.attempt (ladder : Ladder) (answers : Answers) (budgetKey : BudgetKey) (wakes : Nat)
    (verified : Bool) :
    Ladder × Option WakeAnswer :=
  if answers.stillEligible ≠ some true then (ladder, none)
  -- An attempt that is recorded in vain is cancelled; the ladder forgets nothing and counts
  -- nothing.
  else if verified && !(answers.recorded && answers.stillEligibleRecorded == some true)
    then (ladder, none)
  else if answers.stoppedBeforeWake then (ladder, none)
  else ladder.callDriver answers budgetKey wakes verified

/-- Whether every eligible channel still has its mode, or what was found instead: the first that has
another one, or cannot be read. -/
def rereadModes (answers : Answers) (place : Nat) : List Eligible → Option Bool
  | [] => some true
  | item :: rest => (answers.rereadMode place).bind fun mode =>
    if mode = item.mode then rereadModes answers (place + 1) rest else some false

/-- Looks for a driver. -/
def Ladder.choose (ladder : Ladder) (answers : Answers) (eligible : List Eligible) :
    Ladder × Option WakeAnswer :=
  let budgetKey := budgetKeyOf eligible
  let wakes := ladder.wakesAt budgetKey
  -- The budget is two wakes for the same unread messages.
  if 2 ≤ wakes then (ladder, none)
  else match rereadModes answers 0 eligible with
    -- A mode that cannot be read ends the evaluation.
    | none => (ladder, none)
    -- No channel is to be woken any more.
    | some false => ({ ladder with pending := none }, none)
    | some true =>
      if answers.stoppedBeforeDriver then (ladder, none)
      else match answers.driver with
        | some (some verified) =>
          if answers.stoppedAfterDriver then (ladder, none)
            else ladder.attempt answers budgetKey wakes verified
        -- There is no driver that could wake.
        | _ => (ladder, none)

/-- A wake is forgotten once the agent has been active after it. -/
def Ladder.forgetAnswered (ladder : Ladder) (updatedAt : Int) : Ladder :=
  if ladder.pending.any (· < updatedAt) then { ladder with pending := none } else ladder

variable (retryAfterMs : Option Int)

/-- Waits for the last wake to be answered, and for the agent to be idle. -/
def Ladder.wait (ladder : Ladder) (answers : Answers) (eligible : List Eligible) :
    Ladder × Option WakeAnswer :=
  if !eligible.any (0 < ·.messages) then ({ ladder with pending := none }, none)
  else match answers.activity with
    | none => (ladder, none)
    | some activity =>
      let ladder := ladder.forgetAnswered activity.updatedAt
      if ladder.pending.any fun last => answers.now - last < retryAfterMs.getD 60000
        then (ladder, none)
      else if answers.stoppedWhenIdle || !activity.idle then (ladder, none)
      else ladder.choose answers eligible

/-- The channels, where the evaluation gets as far as reading them. -/
def Answers.listed (answers : Answers) : Option (List FoundChannel) :=
  if answers.settled then answers.driverStates.bind fun _ => answers.channels else none

def eligibleAmong (channels : List FoundChannel) : List Eligible :=
  channels.filterMap (·.eligible wakesAgent)

/-- The drivers that are disabled, as far as the evaluation gets to know. -/
def Answers.states (answers : Answers) : List (Text × WakeJournal.WakeDriverState) :=
  if answers.settled then (answers.driverStates.map Map.entries).getD [] else []

def Ladder.evaluate (ladder : Ladder) (answers : Answers) : Ladder × Option WakeAnswer :=
  let ladder := ladder.noteDisabled answers.states
  match answers.listed with
  | none => (ladder, none)
  | some channels =>
    let eligible := eligibleAmong wakesAgent channels
    (ladder.carryOver channels eligible).wait retryAfterMs answers eligible

end Khala.WakeLadder
