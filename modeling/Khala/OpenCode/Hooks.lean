import Khala.Js.Text
import Mathlib.Logic.Function.Basic

/-! The plugin for OpenCode: idle sessions are prompted with the frames that the CLI delivers for
them. -/

namespace Khala.OpenCode

open Js

/-! ## Wake lines -/

/-- `CODEX_IDLE_WAKE_NOTICE`. -/
def wakeNotice : Text := lit "Khala: channel messages are waiting. Continue."

/-- `[a-f0-9]`. -/
def isNonceUnit (unit : CodeUnit) : Bool := (97 ≤ unit && unit ≤ 102) || (48 ≤ unit && unit ≤ 57)

/-- The line of a nonce, which the caller's pattern has matched. -/
def wakeLine (nonce : Text) : Text := wakeNotice ++ (lit " (k-" ++ (nonce ++ lit ")"))

/-- A part of a prompt. -/
structure Part where
  text : Text
  synthetic : Bool
deriving DecidableEq

/-- The text before a nonce. -/
def opening : Text := wakeNotice ++ lit " (k-"

/-- The nonce of an approved delivery and what follows its first line. -/
def matchWake (stdout : Text) : Option (Text × Text) :=
  let nonce := (stdout.drop opening.length).take 8
  if opening.isPrefixOf stdout && nonce.length == 8 && nonce.all isNonceUnit then
    match stdout.drop (opening.length + 8) with
    | [41] => some (nonce, [])
    | 41 :: 10 :: frame => some (nonce, frame)
    | _ => none
  else none

def wakeParts (stdout : Text) : List Part :=
  match matchWake stdout with
  | none => []
  | some (nonce, frame) => ⟨wakeLine nonce, false⟩ :: if frame.isEmpty then [] else [⟨frame, true⟩]

/-- The parts that the user sees. -/
def visible (stdout : Text) : List Part := (wakeParts stdout).filter (!·.synthetic)

/-- The frame, if there is one. -/
def cached (stdout : Text) : List Part := (wakeParts stdout).filter (·.synthetic)

/-- What is prompted when the CLI approves the replay of a pending delivery. -/
def replayOf (approval pending : Text) : Option Text :=
  if (visible approval).isEmpty then none
    else some (joinLines ((visible approval ++ cached pending).map (·.text)))

/-- The nonce of a wake has eight units of its kind. -/
theorem wakeParts_of_match {stdout nonce frame : Text}
    (is : matchWake stdout = some (nonce, frame)) :
    nonce.length = 8 ∧ nonce.all isNonceUnit = true := by
  simp only [matchWake] at is
  split at is
  · rename_i shaped
    simp only [Bool.and_eq_true, beq_iff_eq] at shaped
    split at is
    · cases is
      exact ⟨shaped.1.2, shaped.2⟩
    · cases is
      exact ⟨shaped.1.2, shaped.2⟩
    · cases is
  · cases is

/-- A wake line is matched, alone and before a frame. -/
theorem matchWake_line {nonce : Text} (eight : nonce.length = 8)
    (hexadecimal : nonce.all isNonceUnit = true) (rest : Text) :
    matchWake (wakeLine nonce ++ rest) = match rest with
      | [] => some (nonce, [])
      | 10 :: frame => some (nonce, frame)
      | _ => none := by
  -- The line is the opening, the nonce and a bracket.
  have shape : wakeLine nonce ++ rest = opening ++ (nonce ++ 41 :: rest) := by
    simp [wakeLine, opening, show lit ")" = [41] by decide]
  have first : ((opening ++ (nonce ++ 41 :: rest)).drop opening.length).take 8 = nonce := by
    rw [List.drop_left, ← eight, List.take_left]
  have behind : (opening ++ (nonce ++ 41 :: rest)).drop (opening.length + 8) = 41 :: rest := by
    rw [← eight, ← List.length_append, ← List.append_assoc, List.drop_left]
  have starts : opening.isPrefixOf (opening ++ (nonce ++ 41 :: rest)) = true :=
    List.isPrefixOf_iff_prefix.mpr (List.prefix_append _ _)
  -- So the nonce is found, and what follows the bracket decides.
  simp only [matchWake, shape, first, behind, starts, eight, hexadecimal, Bool.and_true,
    beq_self_eq_true, if_true]
  cases rest with
  | nil => rfl
  | cons unit frame =>
    by_cases newline : unit = 10
    · subst newline
      rfl
    -- It is no line end, so there is no match.
    · split
      · rename_i short
        cases short
      · rename_i cut
        cases cut
        exact absurd rfl newline
      · split
        · rename_i short
          cases short
        · rename_i cut
          cases cut
          exact absurd rfl newline
        · rfl

/-- The parts of an approved replay are the new line and the frame that was kept. -/
theorem wakeParts_replayOf {approval pending acknowledged : Text}
    (replays : replayOf approval pending = some acknowledged) :
    wakeParts acknowledged = visible approval ++ cached pending ∧ visible approval ≠ [] := by
  unfold replayOf at replays
  split at replays
  · cases replays
  rename_i seen
  obtain rfl := Option.some.inj replays
  -- There is something to show, so the approval is a wake line.
  have some_ : visible approval ≠ [] := by simpa using seen
  refine ⟨?_, some_⟩
  -- Its nonce is what is replayed.
  cases matched : matchWake approval with
  | none => simp [visible, wakeParts, matched] at some_
  | some found =>
    obtain ⟨nonce, frame⟩ := found
    obtain ⟨eight, hexadecimal⟩ := wakeParts_of_match matched
    have line : visible approval = [⟨wakeLine nonce, false⟩] := by
      simp only [visible, wakeParts, matched]
      split <;> simp
    rw [line]
    -- What is pending has a frame, or it has not; and the frame may be empty.
    cases kept : matchWake pending with
    | none =>
      have nothing : cached pending = [] := by simp [cached, wakeParts, kept]
      have alone := matchWake_line eight hexadecimal []
      rw [List.append_nil] at alone
      simp [nothing, joinLines, wakeParts, alone]
    | some found =>
      obtain ⟨nonce', frame'⟩ := found
      by_cases empty : frame' = []
      · have nothing : cached pending = [] := by simp [cached, wakeParts, kept, empty]
        have alone := matchWake_line eight hexadecimal []
        rw [List.append_nil] at alone
        simp [nothing, joinLines, wakeParts, alone]
      -- With a frame the text is both, one line after the other.
      · have is : cached pending = [⟨frame', true⟩] := by simp [cached, wakeParts, kept, empty]
        have framed := matchWake_line eight hexadecimal (10 :: frame')
        simp [is, joinLines, wakeParts, lf, framed, empty]

/-- Parts are a line and a frame, in that order. -/
theorem wakeParts_eq (stdout : Text) : wakeParts stdout = visible stdout ++ cached stdout := by
  simp only [visible, cached, wakeParts]
  split
  · rfl
  · split <;> simp

/-- An answer that shows nothing has no parts. -/
theorem wakeParts_eq_nil {stdout : Text} (unseen : visible stdout = []) :
    wakeParts stdout = [] := by
  simp only [visible, wakeParts] at *
  split at unseen
  · rfl
  · simp at unseen

/-- A frame that is replayed is the one that was cached. -/
theorem cached_replayOf {approval pending acknowledged : Text}
    (replays : replayOf approval pending = some acknowledged) :
    cached acknowledged = cached pending := by
  obtain ⟨parts, -⟩ := wakeParts_replayOf replays
  simp [cached, parts, visible]

/-! ## Sessions -/

/-- What the CLI is asked for when a session is idle: approval to prompt the pending frame once
more, or what waits. -/
inductive IdleInput
  | replay
  | fresh (continuation : Bool)
deriving DecidableEq

/-- What can be seen of a session: its idle deliveries and its prompts, numbered by the calls of
`idle` that make them, and what the plugin is told of it. -/
inductive Observed
  | delivers (call : Nat) (input : IdleInput)
  | delivered (call : Nat) (stdout : Option Text)
  | prompts (call : Nat) (parts : List Part)
  | prompted (call : Nat) (accepted : Bool)
  | touched (typed : Bool)
  | deleted
  | disposed
deriving DecidableEq

/-- An entry of `sessions`; `abort` is the call whose prompt it aborts. -/
structure SessionState where
  idle : Bool
  inFlight : Bool
  continuation : Bool
  generation : Nat
  pending : Text
  failures : Nat
  retryAt : Nat
  abort : Option Nat

def SessionState.new : SessionState := ⟨false, false, false, 0, [], 0, 0, none⟩

/-- The user, or the agent, is active. -/
def SessionState.touch (state : SessionState) (typed : Bool) : SessionState :=
  { state with
    idle := false
    generation := state.generation + 1
    failures := if typed then 0 else state.failures
    retryAt := if typed then 0 else state.retryAt }

def SessionState.input (state : SessionState) : IdleInput :=
  if state.pending.isEmpty then .fresh state.continuation else .replay

/-- What a call of `idle` awaits; of a prompt, how its race with its abort has ended. -/
inductive Stage
  | delivering (input : IdleInput)
  | prompting (outcome : Option Bool)
  | finished
deriving DecidableEq

/-- A call of `idle` that delivers, with the entry and the generation that it began with. -/
structure Wake where
  state : Nat
  generation : Nat
  stage : Stage

/-- What the plugin has of one session. The entries made for it are numbered, and `current` is the
one that `sessions` holds; the flag `disposed` is one for all sessions. -/
structure Session where
  disposed : Bool
  current : Option Nat
  states : Nat → SessionState
  made : Nat
  wakes : Nat → Option Wake
  called : Nat
  log : List Observed

def Session.start : Session := ⟨false, none, fun _ => .new, 0, fun _ => none, 0, []⟩

namespace Session

variable (session : Session)

def observe (what : Observed) : Session := { session with log := session.log ++ [what] }

def put (number : Nat) (state : SessionState) : Session :=
  { session with states := Function.update session.states number state }

/-- A state that is put is there, and the others are as they were. -/
@[simp] theorem put_states (number : Nat) (state : SessionState) (other : Nat) :
    (session.put number state).states other = if other = number then state
      else session.states other :=
  Function.update_apply ..

/-- A call goes on to what it awaits next. -/
def await (call : Nat) (wake : Wake) (stage : Stage) : Session :=
  { session with wakes := Function.update session.wakes call (some { wake with stage }) }

/-- `session(id)`, which makes an entry where there is none. -/
def make : Session :=
  match session.current with
  | some _ => session
  | none =>
    { session with
      current := some session.made
      states := Function.update session.states session.made .new
      made := session.made + 1 }

/-! ### Calls of `idle` -/

/-- A call asks the CLI. -/
def deliver (number : Nat) : Session :=
  let state := session.states number
  { session with
    states := Function.update session.states number { state with inFlight := true, continuation := false }
    wakes := Function.update session.wakes session.called (some ⟨number, state.generation, .delivering state.input⟩)
    called := session.called + 1
    log := session.log ++ [Observed.delivers session.called state.input] }

/-- `idle`, up to what it awaits first. -/
def idle (now : Nat) : Session :=
  let found := session.make
  match found.current with
  | none => found
  | some number =>
    let state := found.states number
    if found.disposed || !state.idle || state.inFlight || 3 ≤ state.failures || now < state.retryAt
      then found
    else found.deliver number

/-- The `finally` of a call. -/
def finish (call : Nat) (wake : Wake) : Session :=
  (session.put wake.state { session.states wake.state with inFlight := false }).await call
    wake .finished

/-- The `catch` of a call. -/
def fail (wake : Wake) (now : Nat) : Session :=
  let state := session.states wake.state
  let again :=
    !session.disposed && session.current = some wake.state && state.generation = wake.generation
  session.put wake.state { state with
    failures := state.failures + 1
    retryAt := now + 2000 * 2 ^ state.failures
    idle := again || state.idle }

/-- Whether the user was active, or the session was lost, since the call began. -/
def interrupted (wake : Wake) : Bool :=
  let state := session.states wake.state
  session.disposed || !state.idle || state.generation ≠ wake.generation || session.current
    ≠ some wake.state

/-- The call keeps what the CLI has acknowledged, and prompts it unless it was interrupted. -/
def acknowledge (call : Nat) (wake : Wake) (stdout : Text) : Session :=
  let kept := session.put wake.state { session.states wake.state with pending := stdout }
  if kept.interrupted wake || (wakeParts stdout).isEmpty then kept.finish call wake
  else
    ((kept.put wake.state { kept.states wake.state with idle := false, continuation := true, abort := some call }).await
      call wake (.prompting none)).observe (.prompts call (wakeParts stdout))

/-- The CLI answers, or fails. -/
def deliverSettles (call : Nat) (stdout : Option Text) (now : Nat) : Session :=
  match session.wakes call with
  | some wake =>
    match wake.stage with
    | .delivering input =>
      let told := session.observe (.delivered call stdout)
      match stdout, input with
      -- A delivery that fails counts as a failure.
      | none, _ => (told.fail wake now).finish call wake
      -- A replay sends the frame that is pending, if it is still wanted.
      | some approval, .replay =>
        match replayOf approval (told.states wake.state).pending with
        | none => told.finish call wake
        | some stdout => told.acknowledge call wake stdout
      -- A fresh delivery brings a frame of its own.
      | some stdout, .fresh _ => told.acknowledge call wake stdout
    | _ => session
  | none => session

/-- The race of a prompt ends: the prompt is accepted, or it is refused or aborted. -/
def settle (call : Nat) (accepted : Bool) : Session :=
  match session.wakes call with
  | some wake =>
    if wake.stage = .prompting none
      then (session.await call wake (.prompting (some accepted))).observe (.prompted call accepted)
    else session
  | none => session

/-- A call goes on after its prompt. -/
def resume (call : Nat) (now : Nat) : Session :=
  match session.wakes call with
  | some wake =>
    let state := session.states wake.state
    match wake.stage with
    -- An accepted prompt clears what was pending.
    | .prompting (some true) =>
      (session.put wake.state { state with pending := [], failures := 0, retryAt := 0,
                                           abort := none }).finish call wake
    -- A refused prompt counts as a failure, and its frame stays pending.
    | .prompting (some false) =>
      ((session.put wake.state { state with abort := none }).fail wake now).finish call wake
    | _ => session
  | none => session

/-! ### Events and hooks -/

/-- `state.abort?.abort()`. -/
def abort : Session :=
  match session.current.bind fun number => (session.states number).abort with
  | some call => session.settle call false
  | none => session

/-- A hook, or an event of a busy session. -/
def touch (typed : Bool) : Session :=
  let found := session.make.observe (.touched typed)
  match found.current with
  | none => found
  | some number => found.put number ((found.states number).touch typed)

/-- The session has become idle. -/
def rest : Session :=
  let found := session.make
  match found.current with
  | none => found
  | some number => found.put number { found.states number with idle := true }

end Session

/-- What happens to one session. -/
inductive SessionEvent
  /-- `session.idle`. -/
  | idle (now : Nat)
  /-- `session.status` tells of a session that is busy. -/
  | busy
  /-- `session.deleted`. -/
  | deleted
  /-- `session.created`, `session.updated` and all other events of the session. -/
  | other
  /-- `chat.message`, and whether the message has an identifier. -/
  | chat (typed : Bool)
  /-- `tool.execute.before`. -/
  | toolBefore
  /-- The loop of the timer comes to the session. -/
  | poll (now : Nat)
  /-- The command that delivers comes to its end. -/
  | deliverSettles (call : Nat) (stdout : Option Text) (now : Nat)
  /-- The prompt is accepted or refused. -/
  | promptSettles (call : Nat) (accepted : Bool)
  /-- Five seconds have passed since the prompt was sent. -/
  | deadline (call : Nat)
  /-- The attempt goes on after its prompt. -/
  | resumes (call : Nat) (now : Nat)

def Session.step (session : Session) : SessionEvent → Session
  | .idle now => if session.disposed then session else session.rest.idle now
  -- A session that ends still counts what touches it.
  | .busy => if session.disposed then session.observe (.touched false) else session.touch false
  | .deleted =>
    -- A deletion aborts an open prompt.
    if session.disposed then session.observe .deleted
      else { session.abort with current := none }.observe .deleted
  | .other => if session.disposed then session else session.make
  | .chat typed => session.touch typed
  | .toolBefore => session.touch false
  | .poll now =>
    match session.current with
    -- The timer only wakes a session that rests.
    | some number => if (session.states number).idle then session.idle now else session
    | none => session
  | .deliverSettles call stdout now => session.deliverSettles call stdout now
  | .promptSettles call accepted => session.settle call accepted
  | .deadline call => session.settle call false
  | .resumes call now => session.resume call now

def Session.dispose (session : Session) : Session :=
  { session.abort with disposed := true, current := none }.observe .disposed

/-- The sessions by their identifiers. -/
abbrev Plugin : Type := Text → Session

inductive Input
  | session (id : Text) (event : SessionEvent)
  | disposed

/-- `createHooks`, for a session that is resumed or for none. -/
def createHooks (resumedSession : Option Text) (now : Nat) : Plugin :=
  match resumedSession with
  | none => fun _ => .start
  | some id => Function.update (fun _ => .start) id (Session.start.rest.idle now)

def Plugin.step (plugin : Plugin) : Input → Plugin
  | .session id event => Function.update plugin id ((plugin id).step event)
  | .disposed => fun id => (plugin id).dispose

/-- The plugin after a list of inputs. -/
def Plugin.after (plugin : Plugin) (inputs : List Input) : Plugin := inputs.foldl Plugin.step plugin

end Khala.OpenCode
