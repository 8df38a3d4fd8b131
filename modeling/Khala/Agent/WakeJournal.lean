import Khala.Js.Map
import Khala.Js.Moment

/-! The journal of wake attempts: what was sent to a driver and not yet answered, and how often each
driver failed. -/

namespace Khala.WakeJournal

open Js

/-- A time as an activity file or an attempt holds it. -/
inductive Stamp
  | text (value : Text)
  | number (value : Moment)
deriving DecidableEq

structure WakeAttempt where
  nonce : Text
  driver : Text
  sentAt : Moment
  deadline : Moment
  activityUpdatedAt : Option Stamp
  verificationDeferred : Bool
  /-- Whether `verification` is `transcript`. -/
  transcript : Bool
  startsActivity : Bool
deriving DecidableEq

/-- The value of `failures`, which is a number only where the code put one. -/
inductive Failures
  | count (n : Nat)
  | absent
  | nan
  | null
deriving DecidableEq

/-- `failures + 1`. -/
def Failures.next : Failures → Failures
  | count n => count (n + 1)
  | absent => nan
  | nan => nan
  | null => count 1

/-- `failures >= 2`. -/
def Failures.atLeastTwo : Failures → Bool
  | count n => 2 ≤ n
  | _ => false

structure WakeDriverState where
  failures : Failures
  disabled : Bool
  reason : Option Text
  disabledAt : Option Text
  noticeShown : Bool
deriving DecidableEq

/-- `{ failures }`. -/
def WakeDriverState.only (failures : Failures) : WakeDriverState :=
  ⟨failures, false, none, none, false⟩

inductive SettlementStatus
  | success
  | failure
  | void
deriving DecidableEq

structure WakeSettlement where
  nonce : Text
  driver : Text
  status : SettlementStatus
deriving DecidableEq

/-- `SessionData`. -/
structure Journal where
  attempts : List WakeAttempt
  state : Map Text WakeDriverState
deriving DecidableEq

/-- What is read where there is no file. -/
def Journal.initial : Journal := ⟨[], Map.empty⟩

/-- Numbers that are not finite are written as `null`. -/
def Failures.written : Failures → Failures
  | nan => null
  | failures => failures

/-- What is read back after the journal was replaced. -/
def Journal.written (journal : Journal) : Journal where
  attempts := journal.attempts.map fun attempt =>
    { attempt with activityUpdatedAt := attempt.activityUpdatedAt.map fun stamp =>
        match stamp with
        | .number value => .number value.written
        | .text value => .text value }
  state := journal.state.mapValues fun state => { state with failures := state.failures.written }

/-- The names under which every object has a function. -/
def inheritedNames : List Text :=
  [lit "toString", lit "toLocaleString", lit "valueOf", lit "hasOwnProperty", lit "isPrototypeOf",
    lit "propertyIsEnumerable", lit "__defineGetter__", lit "__defineSetter__",
      lit "__lookupGetter__",
    lit "__lookupSetter__"]

/-- `data.state[driver] ?? { failures: 0 }`; a function has no `failures`. -/
def priorState (state : Map Text WakeDriverState) (driver : Text) : WakeDriverState :=
  match state.get driver with
  | some prior => prior
  | none => .only (if driver ∈ inheritedNames then .absent else .count 0)

/-- Counts a failure. It fails itself where the time has no text. -/
def countFailure (state : Map Text WakeDriverState) (driver : Text) (now : Moment) :
    Option (Map Text WakeDriverState) :=
  let prior := priorState state driver
  let failures := prior.failures.next
  if failures.atLeastTwo then
    now.toISOString.map fun disabledAt => state.set driver
      { prior with failures, disabled := true, reason := some (lit "nonce_timeout"), disabledAt := some disabledAt }
  else some (state.set driver (.only failures))

/-- Whether the text is part of the other. -/
def includes (text part : Text) : Bool := text.tails.any part.isPrefixOf

/-- How a nonce shows in the line that wakes an agent. -/
def nonceMark (nonce : Text) : Text := lit "(k-" ++ nonce ++ lit ")"

/-- The nonces that `wakeLine` takes: eight lower-case hexadecimal digits. -/
def isNonce (nonce : Text) : Bool :=
  nonce.length == 8 && nonce.all fun u => (48 ≤ u && u ≤ 57) || (97 ≤ u && u ≤ 102)

/-! ## The calls, each with the lock held -/

def Journal.recordAttempt (journal : Journal) (attempt : WakeAttempt) : Option Journal :=
  if !isNonce attempt.nonce then none
  else if attempt.driver = []
    ∨ attempt.driver ∈ [lit "__proto__", lit "constructor", lit "prototype"]
      ∨ attempt.sentAt.isFinite = false ∨ attempt.deadline.isFinite = false
      ∨ attempt.deadline.le attempt.sentAt = true then none
  else if journal.attempts.any (·.nonce == attempt.nonce) then none
  else some (Journal.written { journal with attempts := journal.attempts ++ [attempt] })

structure Activity where
  state : Text
  updatedAt : Stamp

structure SettleInput where
  now : Moment
  activity : Option Activity
  promptText : Option Text
  deferVerification : Bool
  verifiedAt : Option Moment

section

-- `Date.parse`.
variable (dateParse : Text → Moment)

def Stamp.time : Stamp → Moment
  | .text value => dateParse value
  | .number value => value

/-- `activityChanged`. -/
def SettleInput.activityChanged (input : SettleInput) (attempt : WakeAttempt) : Bool :=
  match input.activity with
  | none => false
  | some activity =>
    let baselineAt := match attempt.activityUpdatedAt with
      | some stamp => stamp.time dateParse
      | none => attempt.sentAt
    activity.state != lit "idle" || baselineAt.lt (activity.updatedAt.time dateParse)

/-- Whether the activity is in this state. -/
def SettleInput.activityIs (input : SettleInput) (state : String) : Bool :=
  input.activity.any (·.state == lit state)

/-- How one attempt stands: what is kept of it, and its status once it has one. -/
def SettleInput.statusOf (input : SettleInput) (attempt : WakeAttempt) :
    WakeAttempt × Option SettlementStatus :=
  let verified := input.promptText.any (includes · (nonceMark attempt.nonce))
  let activityChanged := input.activityChanged dateParse attempt
  -- Prompt integrations settle before they write their own busy boundary, so a change belongs to
  -- the user.
  let attempt := if input.deferVerification && !activityChanged
    then { attempt with verificationDeferred := true } else attempt
  let overdue := attempt.deadline.le input.now
  let inTime := input.now.le attempt.deadline
  let status :=
    if attempt.transcript then
      if overdue && input.activityIs "idle" then some .failure else none
    else if verified && input.verifiedAt.any fun verifiedAt =>
        attempt.sentAt.le verifiedAt && verifiedAt.le attempt.deadline then some .success
    else if attempt.verificationDeferred then
      if verified && inTime then some .success
      else if overdue then some (if activityChanged then .void else .failure)
      else none
    else if activityChanged
      && !(attempt.startsActivity && input.activityIs "busy" && input.promptText.isNone) then
      some .void
    else if verified && input.verifiedAt.isNone && inTime then some .success
    else if overdue && input.activityIs "idle" then some .failure
    else if input.promptText.isSome then some .void
    else none
  (attempt, status)

/-- What a settled attempt does to its driver. -/
def applyStatus (state : Map Text WakeDriverState) (driver : Text) (now : Moment) :
    SettlementStatus → Option (Map Text WakeDriverState)
  | .void => some state
  | .success => some (state.set driver (.only (.count 0)))
  | .failure => countFailure state driver now

/-- The loop: the settlements, the attempts that remain, and the drivers' states. -/
def SettleInput.settleAll (input : SettleInput) :
    List WakeAttempt → Map Text WakeDriverState →
    Option (List WakeSettlement × List WakeAttempt × Map Text WakeDriverState)
  | [], state => some ([], [], state)
  -- Without attempts the state stays.
  | attempt :: rest, state => do
    match input.statusOf dateParse attempt with
    -- Either the attempt stays in the journal, as nothing is known of it yet.
    | (attempt, none) =>
      let (results, remaining, state) ← input.settleAll rest state
      return (results, attempt :: remaining, state)
    -- Or it is settled, and its driver's state follows.
    | (attempt, some status) =>
      let state ← applyStatus state attempt.driver input.now status
      let (results, remaining, state) ← input.settleAll rest state
      return (⟨attempt.nonce, attempt.driver, status⟩ :: results, remaining, state)

/-- `settleAttempts`. `seen` says whether the snapshot that is read before the lock held attempts.
-/
def Journal.settleAttempts (journal : Journal) (input : SettleInput) (seen : Bool) :
    Option (Journal × List WakeSettlement) :=
  if seen then do
    let (results, remaining, state) ← input.settleAll dateParse journal.attempts journal.state
    return (Journal.written ⟨remaining, state⟩, results)
  else some (journal, [])

end

/-- Cancel only the attempt whose transport was skipped; preserve concurrent wakes. -/
def Journal.cancelAttempt (journal : Journal) (nonce : Text) : Journal :=
  Journal.written { journal with attempts := journal.attempts.filter (·.nonce != nonce) }

/-- A transport inserted text but could not safely submit it. Settle only its nonce. -/
def Journal.failAttempt (journal : Journal) (nonce : Text) (now : Moment) : Option Journal :=
  match journal.attempts.find? (·.nonce == nonce) with
  | none => some journal
  | some attempt => do
    let state ← countFailure journal.state attempt.driver now
    return Journal.written ⟨journal.attempts.filter (·.nonce != nonce), state⟩

/-- Re-consent clears attempts as well as failures, so that an old deadline cannot disable again. -/
def Journal.resetWakeDriver (journal : Journal) (driver : Text) : Journal :=
  Journal.written ⟨journal.attempts.filter (·.driver != driver), journal.state.delete driver⟩

/-- Whether the driver's last disabling was not reported yet. -/
def WakeDriverState.noticeDue (state : WakeDriverState) : Bool :=
  state.disabled && !state.noticeShown

/-- Claim notice generations under the same lock as settlement and re-consent. Names that are
numbers come first in the runtime's list. -/
def Journal.takeWakeDisableNotices (journal : Journal) : Journal × List Text :=
  (Journal.written { journal with
      state := journal.state.mapValues fun state =>
        if state.noticeDue then { state with noticeShown := true } else state },
    (journal.state.entries.filter (·.2.noticeDue)).map (·.1))

/-- Whether the text confirms the attempt of this driver. -/
def confirms (driver text : Text) (now : Moment) (attempt : WakeAttempt) : Bool :=
  attempt.driver == driver && !attempt.deadline.lt now && includes text (nonceMark attempt.nonce)

/-- Confirm only a native driver's outstanding nonce, independently of tool activity. -/
def Journal.confirmWakeText (journal : Journal) (driver text : Text) (now : Moment) : Journal :=
  Journal.written ⟨journal.attempts.filter fun attempt => !confirms driver text now attempt,
    if journal.attempts.any (confirms driver text now)
      then journal.state.set driver (.only (.count 0)) else journal.state⟩

end Khala.WakeJournal
