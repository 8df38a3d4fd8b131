import Khala.OpenCode.Hooks
import Mathlib.Logic.Relation

/-! What can happen to a session, one change at a time, and what each change keeps. -/

namespace Khala.OpenCode

open Js

/-- What a delivery makes pending, of what the CLI answers. -/
def Brings (pending : Text) (input : IdleInput) (answer stdout : Text) : Prop :=
  match input with
  | .replay => replayOf answer pending = some stdout
  | .fresh _ => answer = stdout

namespace Session

/-- All that happens to a session, one change at a time. -/
inductive Change : Session → Session → Prop
  /-- A session gets its state. -/
  | make {session : Session} (absent : session.current = none) :
    Change session { session with
      current := some session.made
      states := Function.update session.states session.made .new
      made := session.made + 1 }
  /-- The session rests. -/
  | rest {session : Session} {number : Nat} (is : session.current = some number) :
    Change session (session.put number { session.states number with idle := true })
  /-- A person or a tool touches the session. -/
  | touch {session : Session} {number : Nat} (is : session.current = some number) (typed : Bool) :
    Change session
      ((session.observe (.touched typed)).put number ((session.states number).touch typed))
  /-- After the end nothing is done with what is observed. -/
  | ignore {session : Session} (ended : session.disposed = true) {what : Observed}
    (is : what = .touched false ∨ what = .deleted) :
    Change session (session.observe what)
  /-- An attempt is made, and its delivery is called. -/
  | deliver {session : Session} {number : Nat} (is : session.current = some number)
    (alive : session.disposed = false)
    (free : (session.states number).inFlight = false) (few : (session.states number).failures < 3) :
    Change session (session.deliver number)
  /-- The delivery fails. -/
  | fail {session : Session} {call : Nat} {wake : Wake} {input : IdleInput}
    (is : session.wakes call = some wake)
    (asks : wake.stage = .delivering input) (now : Nat) :
    Change session (((session.observe (.delivered call none)).fail wake now).finish call wake)
  /-- The answer to a replay says that its frame is no longer wanted. -/
  | suppress {session : Session} {call : Nat} {wake : Wake} (is : session.wakes call = some wake)
    (asks : wake.stage = .delivering .replay) (approval : Text) :
    Change session ((session.observe (.delivered call (some approval))).finish call wake)
  /-- The frame is kept, as the session is no longer at rest or has nothing to say. -/
  | keep {session : Session} {call : Nat} {wake : Wake} {input : IdleInput} {answer stdout : Text}
    (is : session.wakes call = some wake) (asks : wake.stage = .delivering input)
    (brings : Brings (session.states wake.state).pending input answer stdout) :
    Change session (((session.observe (.delivered call (some answer))).put wake.state
      { session.states wake.state with pending := stdout }).finish call wake)
  /-- The frame is sent as a prompt. -/
  | prompt {session : Session} {call : Nat} {wake : Wake} {input : IdleInput} {answer stdout : Text}
    (is : session.wakes call = some wake) (asks : wake.stage = .delivering input)
    (brings : Brings (session.states wake.state).pending input answer stdout) (some_ : wakeParts stdout ≠ [])
    (alive : session.disposed = false) (own : session.current = some wake.state)
    (untouched : (session.states wake.state).generation = wake.generation) :
    Change session ((((session.observe (.delivered call (some answer))).put wake.state
      { session.states wake.state with pending := stdout, idle := false, continuation := true, abort := some call }).await call wake
        (.prompting none)).observe (.prompts call (wakeParts stdout)))
  /-- The prompt is answered. -/
  | settle {session : Session} {call : Nat} {wake : Wake} (is : session.wakes call = some wake)
    (open_ : wake.stage = .prompting none) (accepted : Bool) :
    Change session
      ((session.await call wake (.prompting (some accepted))).observe (.prompted call accepted))
  /-- The prompt was accepted, which ends the attempt. -/
  | accepted {session : Session} {call : Nat} {wake : Wake} (is : session.wakes call = some wake)
    (ended : wake.stage = .prompting (some true)) :
    Change session ((session.put wake.state { session.states wake.state with
      pending := [], failures := 0, retryAt := 0, abort := none }).finish call wake)
  /-- The prompt was refused. -/
  | refused {session : Session} {call : Nat} {wake : Wake} (is : session.wakes call = some wake)
    (ended : wake.stage = .prompting (some false)) (now : Nat) :
    Change session
      (((session.put wake.state { session.states wake.state with abort := none }).fail wake
        now).finish call wake)
  /-- The session is deleted. -/
  | delete {session : Session} (alive : session.disposed = false)
    (settled : ∀ call wake, session.wakes call = some wake → wake.stage ≠ .prompting none) :
    Change session ({ session with current := none }.observe .deleted)
  /-- The hooks are disposed of. -/
  | dispose {session : Session} (settled : ∀ call wake, session.wakes call = some wake →
    wake.stage ≠ .prompting none) :
    Change session ({ session with disposed := true, current := none }.observe .disposed)

/-- The calls hold their entries: one call at a time is under way with an entry, and a prompt that
is open can be aborted. -/
structure Sound (session : Session) : Prop where
  /-- The current state is one that was made. -/
  made : ∀ number, session.current = some number → number < session.made
  /-- Calls are counted. -/
  called : ∀ call wake, session.wakes call = some wake → call < session.called
  entries : ∀ call wake, session.wakes call = some wake → wake.state < session.made
  /-- A generation never falls. -/
  generations : ∀ call wake, session.wakes call = some wake →
    wake.generation ≤ (session.states wake.state).generation
  /-- An attempt holds its state. -/
  inFlight : ∀ call wake, session.wakes call = some wake → wake.stage ≠ .finished →
    (session.states wake.state).inFlight = true
  /-- A state has one attempt at a time. -/
  single : ∀ call wake call' wake', session.wakes call = some wake →
    session.wakes call' = some wake' → wake.stage ≠ .finished →
    wake'.stage ≠ .finished → wake.state = wake'.state → call = call'
  /-- A session whose prompt is open is the current one, and can be aborted. -/
  prompting : ∀ call wake, session.wakes call = some wake → wake.stage = .prompting none →
    session.disposed = false ∧ session.current = some wake.state
      ∧ (session.states wake.state).abort = some call
  /-- An attempt starts with fewer than three failures. -/
  few : ∀ call wake, session.wakes call = some wake → wake.stage ≠ .finished →
    (session.states wake.state).failures < 3
  /-- There are three failures at most. -/
  bounded : ∀ number, (session.states number).failures ≤ 3
  /-- Nothing is current after the end. -/
  ended : session.disposed = true → ∀ call wake, session.wakes call = some wake →
    session.current ≠ some wake.state

/-! ### One call at a time -/

section

variable {session : Session} {call : Nat} {wake : Wake}

/-- An entry is changed, but not in what a call holds of it. -/
theorem Sound.edited (sound : Sound session) {number : Nat} {state : SessionState}
    (log : List Observed) (generation : (session.states number).generation ≤ state.generation)
    (inFlight : state.inFlight = (session.states number).inFlight)
    (abort : state.abort = (session.states number).abort)
    (failures : state.failures ≤ (session.states number).failures) :
    Sound { session with states := Function.update session.states number state, log } where
  made := sound.made
  called := sound.called
  entries := sound.entries
  generations call wake is := by
    -- An entry that is not the one that changes is as it was.
    simp only [Function.update_apply]
    split
    · rename_i same
      exact Nat.le_trans (same ▸ sound.generations call wake is) generation
    · exact sound.generations call wake is
  inFlight call wake is live := by
    simp only [Function.update_apply]
    split
    · rename_i same
      rw [inFlight, ← same]
      exact sound.inFlight call wake is live
    · exact sound.inFlight call wake is live
  single := sound.single
  prompting call wake is open_ := by
    obtain ⟨alive, own, aborts⟩ := sound.prompting call wake is open_
    refine ⟨alive, own, ?_⟩
    simp only [Function.update_apply]
    split
    · rename_i same
      rw [abort, ← same, aborts]
    · exact aborts
  few call wake is live := by
    simp only [Function.update_apply]
    split
    · rename_i same
      exact Nat.lt_of_le_of_lt failures (same ▸ sound.few call wake is live)
    · exact sound.few call wake is live
  bounded other := by
    simp only [Function.update_apply]
    split
    · exact Nat.le_trans failures (sound.bounded number)
    · exact sound.bounded other
  ended := sound.ended

/-- A call ends, and gives up its entry. -/
theorem Sound.finished (sound : Sound session) (is : session.wakes call = some wake)
    (live : wake.stage ≠ .finished) {state : SessionState} (log : List Observed)
    (generation : state.generation = (session.states wake.state).generation)
    (failures : state.failures ≤ 3) :
    Sound { session with
      states := Function.update session.states wake.state { state with inFlight := false }
      wakes := Function.update session.wakes call (some { wake with stage := .finished })
      log } := by
  -- Every other call that is under way has another entry.
  have others : ∀ {other found},
    Function.update session.wakes call (some { wake with stage := .finished }) other = some found →
      found.stage ≠ .finished → session.wakes other = some found ∧ found.state ≠ wake.state := by
    intro other found there live'
    rw [Function.update_apply] at there
    split at there
    · obtain rfl := Option.some.inj there
      exact absurd rfl live'
    · rename_i differs
      exact ⟨there, fun same =>
        differs (sound.single other found call wake there is live' live same)⟩
  -- The call that ends keeps its entry and the generation that it began with.
  have former : ∀ {other found},
    Function.update session.wakes call (some { wake with stage := .finished }) other = some found →
      ∃ before, session.wakes other = some before ∧ before.state = found.state
        ∧ before.generation = found.generation := by
    intro other found there
    rw [Function.update_apply] at there
    split at there
    · rename_i same
      obtain rfl := Option.some.inj there
      exact ⟨wake, same ▸ is, rfl, rfl⟩
    · exact ⟨found, there, rfl, rfl⟩
  exact {
    made := sound.made
    called := fun other found there => by
      obtain ⟨before, stood, -, -⟩ := former there
      exact sound.called other before stood
    entries := fun other found there => by
      obtain ⟨before, stood, entry, -⟩ := former there
      exact entry ▸ sound.entries other before stood
    generations := fun other found there => by
      obtain ⟨before, stood, entry, began⟩ := former there
      have kept := sound.generations other before stood
      rw [entry, began] at kept
      simp only [Function.update_apply]
      split
      · rename_i same
        rw [generation, ← same]
        exact kept
      · exact kept
    inFlight := fun other found there live' => by
      obtain ⟨stood, differs⟩ := others there live'
      simp only [Function.update_apply, if_neg differs]
      exact sound.inFlight other found stood live'
    single := fun other found other' found' there there' live' live'' same => by
      exact sound.single other found other' found' (others there live').1
        (others there' live'').1 live' live'' same
    prompting := fun other found there open_ => by
      obtain ⟨stood, differs⟩ := others there (by rw [open_]; decide)
      simp only [Function.update_apply, if_neg differs]
      exact sound.prompting other found stood open_
    few := fun other found there live' => by
      obtain ⟨stood, differs⟩ := others there live'
      simp only [Function.update_apply, if_neg differs]
      exact sound.few other found stood live'
    bounded := fun number => by
      simp only [Function.update_apply]
      split
      · exact failures
      · exact sound.bounded number
    ended := fun past other found there => by
      obtain ⟨before, stood, entry, -⟩ := former there
      exact entry ▸ sound.ended past other before stood }

/-- A call awaits its prompt, or knows how it has ended. -/
theorem Sound.advanced (sound : Sound session) (is : session.wakes call = some wake)
    (live : wake.stage ≠ .finished) {state : SessionState} (log : List Observed)
    {outcome : Option Bool} (generation : state.generation = (session.states wake.state).generation)
    (inFlight : state.inFlight = (session.states wake.state).inFlight)
    (failures : state.failures = (session.states wake.state).failures)
    (open_ : outcome = none → session.disposed = false ∧ session.current = some wake.state
      ∧ state.abort = some call) :
    Sound { session with
      states := Function.update session.states wake.state state
      wakes := Function.update session.wakes call (some { wake with stage := .prompting outcome })
      log } := by
  -- Every call comes from one that was under way, with the same entry and generation.
  have former :
    ∀ {other found},
    Function.update session.wakes call (some { wake with stage := .prompting outcome }) other
    = some found →
      ∃ before, session.wakes other = some before ∧ before.state = found.state
        ∧ before.generation = found.generation
        ∧ (found.stage ≠ .finished → before.stage ≠ .finished) ∧ (other ≠ call → before = found)
        ∧ (other = call → found = { wake with stage := .prompting outcome }) := by
    intro other found there
    rw [Function.update_apply] at there
    split at there
    · rename_i same
      obtain rfl := Option.some.inj there
      exact ⟨wake, same ▸ is, rfl, rfl, fun _ => live, fun differs =>
        absurd same differs, fun _ => rfl⟩
    · rename_i differs
      exact ⟨found, there, rfl, rfl, id, fun _ => rfl, fun same => absurd same differs⟩
  -- Only what is pending and who may abort has changed of the entry.
  have unchanged : ∀ number, ((Function.update session.states wake.state state) number).generation
    = (session.states number).generation
      ∧ ((Function.update session.states wake.state state) number).inFlight
        = (session.states number).inFlight
      ∧ ((Function.update session.states wake.state state) number).failures
        = (session.states number).failures := by
    intro number
    rw [Function.update_apply]
    split
    · rename_i same
      subst same
      exact ⟨generation, inFlight, failures⟩
    · exact ⟨rfl, rfl, rfl⟩
  exact {
    made := sound.made
    called := fun other found there => by
      obtain ⟨before, stood, -⟩ := former there
      exact sound.called other before stood
    entries := fun other found there => by
      obtain ⟨before, stood, entry, -⟩ := former there
      exact entry ▸ sound.entries other before stood
    generations := fun other found there => by
      obtain ⟨before, stood, entry, began, -⟩ := former there
      rw [(unchanged _).1, ← entry, ← began]
      exact sound.generations other before stood
    inFlight := fun other found there live' => by
      obtain ⟨before, stood, entry, -, stays, -⟩ := former there
      rw [(unchanged _).2.1, ← entry]
      exact sound.inFlight other before stood (stays live')
    single := fun other found other' found' there there' live' live'' same => by
      obtain ⟨before, stood, entry, -, stays, -⟩ := former there
      obtain ⟨before', stood', entry', -, stays', -⟩ := former there'
      exact sound.single other before other' before' stood stood' (stays live') (stays' live'')
        (by rw [entry, entry', same])
    prompting := fun other found there isOpen => by
      obtain ⟨before, stood, entry, -, stays, same, own⟩ := former there
      by_cases self : other = call
      · subst self
        obtain rfl := own rfl
        obtain ⟨alive, current, aborts⟩ := open_ (Stage.prompting.inj isOpen)
        exact ⟨alive, current,
          (congrArg SessionState.abort (Function.update_self _ _ _)).trans aborts⟩
      · obtain rfl := same self
        obtain ⟨alive, current, aborts⟩ := sound.prompting other before stood isOpen
        refine ⟨alive, current, ?_⟩
        -- An open prompt of another call has another entry.
        have differs : before.state ≠ wake.state := fun entry' =>
          self (sound.single other before call wake stood is (by rw [isOpen]; decide) live entry')
        exact (congrArg SessionState.abort (Function.update_of_ne differs _ _)).trans aborts
    few := fun other found there live' => by
      obtain ⟨before, stood, entry, -, stays, -⟩ := former there
      rw [(unchanged _).2.2, ← entry]
      exact sound.few other before stood (stays live')
    bounded := fun number => by
      rw [(unchanged _).2.2]
      exact sound.bounded number
    ended := fun past other found there => by
      obtain ⟨before, stood, entry, -⟩ := former there
      exact entry ▸ sound.ended past other before stood }

/-- A call begins. -/
theorem Sound.deliver (sound : Sound session) {number : Nat} (is : session.current = some number)
    (alive : session.disposed = false)
    (free : (session.states number).inFlight = false)
    (few : (session.states number).failures < 3) : Sound (session.deliver number) := by
  -- A call is the new one, with the current entry, or it was there before.
  have began : ∀ {other found}, (session.deliver number).wakes other = some found →
      (other = session.called ∧ found.state = number
        ∧ found.generation = (session.states number).generation
        ∧ found.stage ≠ .finished ∧ found.stage ≠ .prompting none)
        ∨ (other < session.called ∧ session.wakes other = some found) := by
    intro other found there
    simp only [Session.deliver, Function.update_apply] at there
    split at there
    · obtain rfl := Option.some.inj there
      exact .inl ⟨‹_›, rfl, rfl, by simp, by simp⟩
    · exact .inr ⟨sound.called other found there, there⟩
  have entry :
    ∀ other, ((session.deliver number).states other).generation = (session.states other).generation
      ∧ ((session.deliver number).states other).failures = (session.states other).failures
      ∧ ((session.deliver number).states other).abort = (session.states other).abort
      ∧ ((session.deliver number).states other).inFlight = if other = number then true
        else (session.states other).inFlight := by
    intro other
    simp only [Session.deliver, Function.update_apply]
    split
    · rename_i same
      subst same
      exact ⟨rfl, rfl, rfl, rfl⟩
    · exact ⟨rfl, rfl, rfl, rfl⟩
  -- No call was under way with the entry.
  have idle : ∀ {other found}, session.wakes other = some found → found.stage ≠ .finished →
    found.state ≠ number := by
    rintro other found there live rfl
    rw [sound.inFlight other found there live] at free
    cases free
  exact {
    made := sound.made
    called := fun other found there => by
      rcases began there with ⟨rfl, -⟩ | ⟨less, -⟩
      · exact Nat.lt_succ_self _
      · exact Nat.lt_succ_of_lt less
    entries := fun other found there => by
      rcases began there with ⟨-, state, -⟩ | ⟨-, stood⟩
      · exact state ▸ sound.made number is
      · exact sound.entries other found stood
    generations := fun other found there => by
      rw [(entry _).1]
      rcases began there with ⟨-, state, generation, -⟩ | ⟨-, stood⟩
      · rw [generation, state]
      · exact sound.generations other found stood
    inFlight := fun other found there live => by
      rw [(entry _).2.2.2]
      rcases began there with ⟨-, state, -⟩ | ⟨-, stood⟩
      · rw [if_pos state]
      · rw [if_neg (idle stood live)]
        exact sound.inFlight other found stood live
    single := fun other found other' found' there there' live live' same => by
      rcases began there with ⟨rfl, state, -⟩ | ⟨-, stood⟩ <;> rcases began there'
        with ⟨rfl, state', -⟩ | ⟨-, stood'⟩
      · rfl
      · exact absurd (same ▸ state) (idle stood' live')
      · exact absurd (same ▸ state') (idle stood live)
      · exact sound.single other found other' found' stood stood' live live' same
    prompting := fun other found there open_ => by
      rcases began there with ⟨-, -, -, -, closed⟩ | ⟨-, stood⟩
      · exact absurd open_ closed
      · rw [(entry _).2.2.1]
        exact sound.prompting other found stood open_
    few := fun other found there live => by
      rw [(entry _).2.1]
      rcases began there with ⟨-, state, -⟩ | ⟨-, stood⟩
      · exact state ▸ few
      · exact sound.few other found stood live
    bounded := fun other => by
      rw [(entry _).2.1]
      exact sound.bounded other
    ended := fun past => by
      have past : session.disposed = true := past
      rw [alive] at past
      cases past }

end

/-- A session is sound at the start. -/
theorem Sound.start : Sound .start where
  made := by simp [Session.start]
  called := by simp [Session.start]
  entries := by simp [Session.start]
  generations := by simp [Session.start]
  inFlight := by simp [Session.start]
  single := by simp [Session.start]
  prompting := by simp [Session.start]
  few := by simp [Session.start]
  bounded := by simp [Session.start, SessionState.new]
  ended := by simp [Session.start]

/-- A wake that ends leaves its state free. -/
theorem finish_put (session : Session) (call : Nat) (wake : Wake) (state : SessionState) :
    (session.put wake.state state).finish call wake = { session with
      states := Function.update session.states wake.state { state with inFlight := false }
      wakes := Function.update session.wakes call (some { wake with stage := .finished }) } := by
  -- The entry is written twice, and the later writing holds.
  simp only [finish, put, await, Function.update_self, Function.update_idem]

/-- A wake that fails makes its state wait, twice as long each time. -/
theorem fail_put (session : Session) (wake : Wake) (state : SessionState) (now : Nat) : ∃ idle,
    (session.put wake.state state).fail wake now = session.put wake.state { state with
      failures := state.failures + 1
      retryAt := now + 2000 * 2 ^ state.failures
      idle := idle || state.idle } :=
  ⟨_, by simp only [Session.fail, put, Function.update_self, Function.update_idem]; rfl⟩

/-- Every change keeps a session sound. -/
theorem Sound.change {session session' : Session} (change : Change session session')
    (sound : Sound session) : Sound session' := by
  cases change with
  | make absent =>
    -- No call has the entry that is made.
    have old : ∀ call wake, session.wakes call = some wake → wake.state ≠ session.made := fun call wake is =>
      Nat.ne_of_lt (sound.entries call wake is)
    exact {
      made := fun number is => by
        obtain rfl := Option.some.inj is
        exact Nat.lt_succ_self _
      called := sound.called
      entries := fun call wake is => Nat.lt_succ_of_lt (sound.entries call wake is)
      generations := fun call wake is => by
        simp only [Function.update_of_ne (old call wake is)]
        exact sound.generations call wake is
      inFlight := fun call wake is live => by
        simp only [Function.update_of_ne (old call wake is)]
        exact sound.inFlight call wake is live
      single := sound.single
      prompting := fun call wake is open_ => by
        obtain ⟨-, own, -⟩ := sound.prompting call wake is open_
        cases absent.symm.trans own
      few := fun call wake is live => by
        simp only [Function.update_of_ne (old call wake is)]
        exact sound.few call wake is live
      bounded := fun number => by
        simp only [Function.update_apply]
        split
        · exact Nat.zero_le 3
        · exact sound.bounded number
      ended := fun past call wake is same => old call wake is (Option.some.inj same).symm }
  | rest is => exact sound.edited _ (Nat.le_refl _) rfl rfl (Nat.le_refl _)
  | touch is typed =>
    refine sound.edited _ (Nat.le_succ _) rfl rfl ?_
    -- Activity raises the generation and may only forgive failures.
    rw [SessionState.touch]
    split
    · exact Nat.zero_le _
    · exact Nat.le_refl _
  | ignore ended is => exact { sound with }
  | deliver is alive free few => exact sound.deliver is alive free few
  | fail is asks now =>
    -- A call under way had fewer than three failures, so one more is at most three.
    have few := sound.few _ _ is (by rw [asks]; simp)
    rw [Session.fail, finish_put]
    exact sound.finished is (by rw [asks]; simp) _ rfl few
  | suppress is asks approval =>
    exact sound.finished is (by rw [asks]; simp) _ rfl (sound.bounded _)
  | keep is asks brings =>
    rw [finish_put]
    exact sound.finished is (by rw [asks]; simp) _ rfl (sound.bounded _)
  | prompt is asks brings some_ alive own untouched =>
    exact sound.advanced is (by rw [asks]; simp) _ rfl rfl rfl fun _ => ⟨alive, own, rfl⟩
  | settle is open_ accepted =>
    rename_i call wake
    -- The prompt is no longer open, so nobody needs to abort it.
    have advanced := @Sound.advanced _ _ _ sound is (by rw [open_]; simp) _
      (session.log ++ [Observed.prompted call accepted]) (some accepted)
      rfl rfl rfl (fun unsettled => by cases unsettled)
    rwa [Function.update_eq_self] at advanced
  | accepted is ended =>
    rw [finish_put]
    exact sound.finished is (by rw [ended]; simp) _ rfl (Nat.zero_le _)
  | refused is ended now =>
    have few := sound.few _ _ is (by rw [ended]; simp)
    obtain ⟨idle, fails⟩ := fail_put session _ { session.states _ with abort := none } now
    rw [fails, finish_put]
    exact sound.finished is (by rw [ended]; simp) _ rfl few
  | delete alive settled =>
    exact { sound with
      made := fun _ none_ => by cases none_
      prompting := fun call wake is open_ => absurd open_ (settled call wake is)
      ended := fun _ _ _ _ none_ => by cases none_ }
  | dispose settled =>
    exact { sound with
      made := fun _ none_ => by cases none_
      prompting := fun call wake is open_ => absurd open_ (settled call wake is)
      ended := fun _ _ _ _ none_ => by cases none_ }

section

variable {session : Session}

/-! ### Every step is made of changes -/

abbrev Changes : Session → Session → Prop := Relation.ReflTransGen Change

/-- Making a state is a series of changes. -/
theorem changes_make (session : Session) :
    Changes session session.make ∧ ∃ number, session.make.current = some number := by
  -- An entry is made only where there is none.
  unfold Session.make
  cases is : session.current with
  | none => exact ⟨.single (.make is), session.made, rfl⟩
  | some number => exact ⟨.refl, number, is⟩

/-- Going idle is a series of changes. -/
theorem changes_idle (session : Session) (now : Nat) : Changes session (session.idle now) := by
  -- All that could hold back the delivery is checked on the entry at hand.
  obtain ⟨makes, number, is⟩ := changes_make session
  refine makes.trans ?_
  simp only [Session.idle, is]
  split
  · exact .refl
  · rename_i goes
    simp only [Bool.or_eq_true, Bool.not_eq_true', decide_eq_true_eq, not_or, Bool.not_eq_true,
      Nat.not_le] at goes
    exact .single (.deliver is goes.1.1.1.1 goes.1.1.2 goes.1.2)

/-- Resting is a series of changes. -/
theorem changes_rest (session : Session) : Changes session session.rest := by
  obtain ⟨makes, number, is⟩ := changes_make session
  refine makes.trans ?_
  simp only [Session.rest, is]
  exact .single (.rest is)

/-- What is observed does not change the state that is made. -/
theorem make_observe (session : Session) (what : Observed) :
    (session.make.observe what).current = session.make.current :=
  rfl

/-- A hook or a typed message is a series of changes. -/
theorem changes_touch (session : Session) (typed : Bool) :
    Changes session (session.touch typed) := by
  obtain ⟨makes, number, is⟩ := changes_make session
  refine makes.trans ?_
  simp only [Session.touch, make_observe, is]
  exact .single (.touch is typed)

/-- Taking a frame that was handed over is a series of changes. -/
theorem changes_acknowledge {call : Nat} {wake : Wake} {input : IdleInput} {answer stdout : Text}
    (is : session.wakes call = some wake) (asks : wake.stage = .delivering input)
    (brings : Brings (session.states wake.state).pending input answer stdout) :
    Changes session ((session.observe (.delivered call (some answer))).acknowledge call wake stdout) := by
  -- Either the frame is kept for later, or nothing has come between and it is prompted.
  unfold Session.acknowledge
  dsimp only
  split
  · exact .single (.keep is asks brings)
  · rename_i goes
    simp only [interrupted, put_states, if_true, Bool.or_eq_true, Bool.not_eq_true', decide_eq_true_eq, not_or, Bool.not_eq_true,
      List.isEmpty_eq_false_iff, ne_eq, Decidable.not_not] at goes
    obtain ⟨⟨⟨⟨alive, -⟩, untouched⟩, own⟩, some_⟩ := goes
    refine .single ?_
    have prompt := Change.prompt is asks brings some_ alive own untouched
    have same : ((session.observe (.delivered call (some answer))).put wake.state
        { session.states wake.state with pending := stdout, idle := false, continuation := true, abort := some call })
        = (((session.observe (.delivered call (some answer))).put wake.state { session.states wake.state with pending := stdout }).put
          wake.state { session.states wake.state with pending := stdout, idle := false, continuation := true, abort := some call }) := by
      simp only [put, Function.update_idem]
    rw [same] at prompt
    simp only [put_states, if_true]
    exact prompt

/-- The answer of a delivery is a series of changes. -/
theorem changes_deliverSettles (session : Session) (call : Nat) (stdout : Option Text) (now : Nat) :
    Changes session (session.deliverSettles call stdout now) := by
  -- A failed delivery counts, and a replay that brings nothing ends quietly.
  unfold Session.deliverSettles
  cases is : session.wakes call with
  | none => exact .refl
  | some wake =>
    dsimp only
    cases asks : wake.stage with
    | prompting outcome => exact .refl
    | finished => exact .refl
    | delivering input =>
      dsimp only
      cases stdout with
      | none => exact .single (.fail is asks now)
      | some answer =>
        cases input with
        | fresh continuation => exact changes_acknowledge is asks rfl
        | replay =>
          dsimp only
          cases brings : replayOf answer (session.states wake.state).pending with
          | none =>
            have brings' :
              replayOf answer
              ((session.observe (.delivered call (some answer))).states wake.state).pending
              = none := brings
            rw [brings']
            exact .single (.suppress is asks answer)
          | some stdout =>
            have brings' :
              replayOf answer
              ((session.observe (.delivered call (some answer))).states wake.state).pending
              = some stdout :=
              brings
            rw [brings']
            exact changes_acknowledge is asks brings

/-- A prompt that settles is a series of changes. -/
theorem changes_settle (session : Session) (call : Nat) (accepted : Bool) :
    Changes session (session.settle call accepted) := by
  unfold Session.settle
  cases is : session.wakes call with
  | none => exact .refl
  | some wake =>
    dsimp only
    split
    · exact .single (.settle is ‹_› accepted)
    · exact .refl

/-- A wake that goes on is a series of changes. -/
theorem changes_resume (session : Session) (call now : Nat) :
    Changes session (session.resume call now) := by
  unfold Session.resume
  cases is : session.wakes call with
  | none => exact .refl
  | some wake =>
    dsimp only
    split
    · exact .single (.accepted is ‹_›)
    · exact .single (.refused is ‹_› now)
    · exact .refl

/-- Aborting is a series of changes. -/
theorem changes_abort (session : Session) : Changes session session.abort := by
  unfold Session.abort
  split
  · exact changes_settle session _ false
  · exact .refl

/-- After an abort, no prompt is open. -/
theorem Sound.settled (sound : Sound session) (call : Nat) (wake : Wake)
    (is : session.abort.wakes call = some wake) :
    wake.stage ≠ .prompting none := by
  -- An open prompt is the one that its entry can abort, and the abort settles it.
  intro open_
  have aborts : ∀ {other found}, session.wakes other = some found → found.stage = .prompting none →
      session.abort = (session.await other found (.prompting (some false))).observe
        (.prompted other false) := by
    intro other found there open_
    obtain ⟨-, own, aborts⟩ := sound.prompting other found there open_
    simp only [Session.abort, own, Option.bind_some, aborts, Session.settle, there, open_, if_true]
  have stood : session.wakes call = some wake := by
    unfold Session.abort at is
    split at is
    · unfold Session.settle at is
      split at is
      · split at is
        · simp only [observe, await, Function.update_apply] at is
          split at is
          · obtain rfl := Option.some.inj is
            cases open_
          · exact is
        · exact is
      · exact is
    · exact is
  rw [aborts stood open_] at is
  simp only [observe, await, Function.update_self] at is
  rw [← Option.some.inj is] at open_
  cases open_

/-- Aborting does not dispose. -/
theorem disposed_abort (session : Session) : session.abort.disposed = session.disposed := by
  -- An abort settles at most a prompt.
  unfold Session.abort
  split
  · unfold Session.settle
    split
    · split <;> rfl
    · rfl
  · rfl

/-- Every event is a series of changes. -/
theorem changes_step (sound : Sound session) (event : SessionEvent) :
    Changes session (session.step event) := by
  -- Each event is a chain of at most two changes.
  cases event with
  | idle now =>
    simp only [Session.step]
    split
    · exact .refl
    · exact (changes_rest session).trans (changes_idle _ now)
  | busy =>
    simp only [Session.step]
    split
    · exact .single (.ignore ‹_› (.inl rfl))
    · exact changes_touch session false
  | deleted =>
    simp only [Session.step]
    split
    · exact .single (.ignore ‹_› (.inr rfl))
    · rename_i alive
      exact (changes_abort session).trans
        (.single (.delete ((disposed_abort session).trans (by simpa using alive)) sound.settled))
  | other =>
    simp only [Session.step]
    split
    · exact .refl
    · exact (changes_make session).1
  | chat typed => exact changes_touch session typed
  | toolBefore => exact changes_touch session false
  | poll now =>
    simp only [Session.step]
    split
    · split
      · exact changes_idle session now
      · exact .refl
    · exact .refl
  | deliverSettles call stdout now => exact changes_deliverSettles session call stdout now
  | promptSettles call accepted => exact changes_settle session call accepted
  | deadline call => exact changes_settle session call false
  | resumes call now => exact changes_resume session call now

/-- Disposal is a series of changes. -/
theorem changes_dispose (sound : Sound session) : Changes session session.dispose :=
  (changes_abort session).trans (.single (.dispose sound.settled))

end

end Session

/-! ### Runs -/

/-- What holds of a session from the start, and stays with each change, holds at any time. -/
theorem always {P : Session → Prop} (start : P .start)
    (change : ∀ {session session'}, Session.Change session session' → session.Sound →
      P session → P session')
    (resumedSession : Option Text) (now : Nat) (inputs : List Input) (id : Text) :
    P ((createHooks resumedSession now).after inputs id) := by
  -- Along a chain the calls stay sound, which each further change may rely on.
  have changes : ∀ {session session'}, Session.Changes session session' → session.Sound
    ∧ P session → session'.Sound ∧ P session' := by
    intro session session' changes good
    induction changes with
    | refl => exact good
    | tail _ next good => exact ⟨good.1.change next, change next good.1 good.2⟩
  -- The session that is resumed starts at rest, and idle from the first moment.
  have created : ∀ id, (createHooks resumedSession now id).Sound
    ∧ P (createHooks resumedSession now id) := by
    intro id
    unfold createHooks
    split
    · exact ⟨.start, start⟩
    · rw [Function.update_apply]
      split
      · exact changes ((Session.changes_rest _).trans (Session.changes_idle _ now)) ⟨.start, start⟩
      · exact ⟨.start, start⟩
  -- An input changes one session, and the end of the plugin all of them.
  have stepped : ∀ {plugin : Plugin}, (∀ id, (plugin id).Sound ∧ P (plugin id)) → ∀ input id,
      (plugin.step input id).Sound ∧ P (plugin.step input id) := by
    intro plugin good input id
    cases input with
    | session other event =>
      rw [Plugin.step, Function.update_apply]
      split
      · exact changes (Session.changes_step (good other).1 event) (good other)
      · exact good id
    | disposed => exact changes (Session.changes_dispose (good id).1) (good id)
  have general : ∀ (inputs : List Input) (plugin : Plugin),
    (∀ id, (plugin id).Sound ∧ P (plugin id)) → ∀ id, P (plugin.after inputs id) := by
    intro inputs
    induction inputs with
    | nil => exact fun plugin good id => (good id).2
    | cons input rest ih => exact fun plugin good => ih (plugin.step input) (stepped good input)
  exact general inputs _ created id

end Khala.OpenCode
