import Khala.Concurrent.Program

/-! Any number of clients calling a service whose calls interleave operation by operation. -/

namespace Concurrent

/-- A service answers each call by a program over the operations of a shared store. -/
structure Service where
  /-- What clients call. -/
  Calls : Interface
  /-- What the calls do one after the other. -/
  Effects : Interface
  Store : Type
  Choice : Type
  /-- The code of a call. -/
  body : (call : Calls.Op) → Program Effects (Calls.Reply call)
  /-- The operations, performed for the given call under its number. -/
  exec : Nat → Calls.Op → Semantics Effects Choice Store
  /-- What may happen to the store from outside. -/
  Event : Type
  outside : Event → Store → Option Store

/-- An answered call. -/
structure Answer (S : Service) where
  tag : Nat
  call : S.Calls.Op
  reply : S.Calls.Reply call

/-- A client between two calls, or waiting for one that has some of its program left. -/
inductive Thread (S : Service)
  | idle (client : Program S.Calls Unit)
  | busy (tag : Nat) (call : S.Calls.Op) (rest : Program S.Effects (S.Calls.Reply call))
      (client : S.Calls.Reply call → Program S.Calls Unit)

/-- The shared store, the clients and the number the next call gets. -/
structure Config (S : Service) where
  store : S.Store
  threads : Nat → Thread S
  next : Nat

/-- A client makes its next call, a call performs its next operation, or the outside acts. -/
inductive Move (S : Service)
  | start (thread : Nat)
  | effect (thread : Nat) (choice : S.Choice)
  | outside (event : S.Event)

variable {S : Service}

/-- A call with nothing left to do answers at once. -/
def settle (tag : Nat) (call : S.Calls.Op) (client : S.Calls.Reply call → Program S.Calls Unit) :
    Program S.Effects (S.Calls.Reply call) → Thread S × List (Answer S)
  | .done reply => (.idle (client reply), [⟨tag, call, reply⟩])
  | .perform op next => (.busy tag call (.perform op next) client, [])

/-- The configuration and the answers after one move, if the move can be made. -/
def step (config : Config S) : Move S → Option (Config S × List (Answer S))
  -- An idle client starts its next call, under a new number.
  | .start thread =>
    match config.threads thread with
    | .idle (.perform call client) =>
      let settled := settle config.next call client (S.body call)
      some (⟨config.store, Function.update config.threads thread settled.1, config.next + 1⟩,
        settled.2)
    | _ => none
  -- The call does its next operation, and answers when that was the last.
  | .effect thread choice =>
    match config.threads thread with
    | .busy tag call (.perform op next) client =>
      (S.exec tag call op choice config.store).map fun (reply, store) =>
        let settled := settle tag call client (next reply)
        (⟨store, Function.update config.threads thread settled.1, config.next⟩, settled.2)
    | _ => none
  -- Something happens outside, and no thread takes part.
  | .outside event =>
    (S.outside event config.store).map fun store => (⟨store, config.threads, config.next⟩, [])

/-- Everything one move can do. -/
theorem step_cases {config after : Config S} {move : Move S} {answers : List (Answer S)}
    (moved : step config move = some (after, answers)) :
    (∃ thread call client, move = .start thread
      ∧ config.threads thread = .idle (.perform call client)
      ∧ after = ⟨config.store, Function.update config.threads thread
          (settle config.next call client (S.body call)).1, config.next + 1⟩
      ∧ answers = (settle config.next call client (S.body call)).2) ∨
    (∃ thread choice tag call op next client reply store, move = .effect thread choice
      ∧ config.threads thread = .busy tag call (.perform op next) client
      ∧ S.exec tag call op choice config.store = some (reply, store)
      ∧ after = ⟨store,
        Function.update config.threads thread (settle tag call client (next reply)).1,
          config.next⟩
      ∧ answers = (settle tag call client (next reply)).2) ∨
    (∃ event store, move = .outside event ∧ S.outside event config.store = some store
      ∧ after = ⟨store, config.threads, config.next⟩ ∧ answers = []) := by
  -- Each kind of move has one guard, and where the guard fails there is no step.
  cases move with
  | start thread =>
    simp only [step] at moved
    split at moved
    · rename_i call client idle
      simp only [Option.some.injEq, Prod.mk.injEq] at moved
      exact Or.inl ⟨thread, call, client, rfl, idle, moved.1.symm, moved.2.symm⟩
    · cases moved
  | effect thread choice =>
    simp only [step] at moved
    split at moved
    · rename_i tag call op next client busy
      simp only [Option.map_eq_some_iff, Prod.exists, Prod.mk.injEq] at moved
      obtain ⟨reply, store, ran, rfl, rfl⟩ := moved
      exact Or.inr (Or.inl ⟨thread, choice, tag, call, op, next, client, reply, store, rfl, busy,
        ran, rfl, rfl⟩)
    · cases moved
  | outside event =>
    simp only [step, Option.map_eq_some_iff, Prod.mk.injEq] at moved
    obtain ⟨store, happened, rfl, rfl⟩ := moved
    exact Or.inr (Or.inr ⟨event, store, rfl, happened, rfl, rfl⟩)

/-- Every sequence of allowed moves from a configuration, with the answers given on the way. -/
inductive Run (allowed : Config S → Move S → Prop) (start : Config S) :
    List (Answer S) → Config S → Prop
  | nil : Run allowed start [] start
  | step {log : List (Answer S)} {config after : Config S} {move : Move S}
    {answers : List (Answer S)}
      (before : Run allowed start log config) (permitted : allowed config move)
      (moved : step config move = some (after, answers)) : Run allowed start (log ++ answers) after

/-- A run under a stricter condition is one under a weaker condition. -/
theorem Run.mono {allowed weaker : Config S → Move S → Prop} {start config : Config S}
    {log : List (Answer S)} (run : Run allowed start log config)
    (imp : ∀ config move, allowed config move → weaker config move) :
    Run weaker start log config := by
  induction run with
  | nil => exact .nil
  | step before permitted moved ih => exact .step ih (imp _ _ permitted) moved

/-- A run meets every condition that follows from one of its invariants. -/
theorem Run.strengthen {allowed stronger : Config S → Move S → Prop} {kept : Config S → Prop}
    {start config : Config S} {log : List (Answer S)} (run : Run allowed start log config)
    (initial : kept start)
    (preserved : ∀ {config move after answers}, kept config → allowed config move →
      Concurrent.step config move = some (after, answers) → kept after)
    (imp : ∀ {config move}, kept config → allowed config move → stronger config move) :
    Run stronger start log config ∧ kept config := by
  induction run with
  | nil => exact ⟨.nil, initial⟩
  | step before permitted moved ih =>
    obtain ⟨stronger_, held⟩ := ih
    exact ⟨.step stronger_ (imp held permitted) moved, preserved held permitted moved⟩

/-- The thread that makes a move. -/
def Move.thread : Move S → Option Nat
  | .start thread => some thread
  | .effect thread _ => some thread
  | .outside _ => none

/-- All threads but one are between two calls. -/
def Config.Lone (thread : Nat) (config : Config S) : Prop :=
  ∀ other, other ≠ thread → ∃ client, config.threads other = .idle client

/-- A thread that moves leaves the others as they are. -/
theorem Config.Lone.step {thread : Nat} {config after : Config S} {move : Move S}
    {answers : List (Answer S)} (lone : config.Lone thread) (own : move.thread = some thread)
    (moved : Concurrent.step config move = some (after, answers)) : after.Lone thread := by
  rcases step_cases moved with ⟨other, call, client, rfl, -, rfl, -⟩
    | ⟨other, choice, tag, call, op, next, client, reply, store, rfl, -, -, rfl, -⟩ | ⟨event,
      store, rfl, -, rfl, -⟩
  · obtain rfl : other = thread := Option.some.inj own
    exact fun third apart => by simpa [Function.update_of_ne apart] using lone third apart
  · obtain rfl : other = thread := Option.some.inj own
    exact fun third apart => by simpa [Function.update_of_ne apart] using lone third apart
  · cases own

/-- Carries out a list of moves, each of which has to pass a check. -/
def execute (check : Config S → Move S → Bool) (config : Config S) :
    List (Move S) → Option (List (Answer S) × Config S)
  | [] => some ([], config)
  | move :: rest =>
    if check config move then do
      let (after, answers) ← step config move
      let (later, final) ← execute check after rest
      some (answers ++ later, final)
    else none

/-- Moves that can be carried out one after another are a run. -/
theorem Run.of_execute {check : Config S → Move S → Bool} {start final : Config S}
    {moves : List (Move S)} {log : List (Answer S)}
    (done : execute check start moves = some (log, final)) :
    Run (fun config move => check config move) start log final := by
  -- The run may have begun earlier, so the statement is for every log before the moves.
  have general : ∀ (moves : List (Move S)) {config earlier later},
    Run (fun config move => check config move) start earlier config →
      execute check config moves = some (later, final) →
      Run (fun config move => check config move) start (earlier ++ later) final := by
    intro moves
    induction moves with
    | nil =>
      intro config earlier later before done
      simp only [execute, Option.some.injEq, Prod.mk.injEq] at done
      obtain ⟨rfl, rfl⟩ := done
      simpa using before
    | cons move rest ih =>
      intro config earlier later before done
      rw [execute] at done
      split at done
      · rename_i passed
        simp only [Option.bind_eq_bind, Option.bind_eq_some_iff, Prod.exists, Option.some.injEq,
          Prod.mk.injEq] at done
        obtain ⟨after, answers, moved, others, last, tail, rfl, rfl⟩ := done
        -- The check passed and the step went through, so it extends the run before the rest.
        have more := ih (.step before passed moved) tail
        rwa [List.append_assoc] at more
      · cases done
  exact general moves .nil done

/-- Every client is between two calls. -/
def Config.Idle (config : Config S) : Prop :=
  ∀ thread, ∃ client, config.threads thread = .idle client

/-- Every call under way is one of a kind. -/
def Config.Calling (may : S.Calls.Op → Prop) (config : Config S) : Prop :=
  ∀ thread tag call rest client, config.threads thread = .busy tag call rest client → may call

/-- When only calls of the kind are started, only such calls are under way and answered. -/
theorem Config.Calling.step {may : S.Calls.Op → Prop} {config after : Config S} {move : Move S}
    {answers : List (Answer S)} (calling : config.Calling may)
    (moved : Concurrent.step config move = some (after, answers))
    (starts : ∀ thread call client, move = .start thread →
      config.threads thread = .idle (.perform call client) → may call) :
    after.Calling may ∧ ∀ answer ∈ answers, may answer.call := by
  -- A call that is settled goes on or answers.
  have settles : ∀ (store : S.Store) (next thread tag : Nat) (call : S.Calls.Op)
    (client : S.Calls.Reply call → Program S.Calls Unit)
      (rest : Program S.Effects (S.Calls.Reply call)), may call →
      Config.Calling may ⟨store,
        Function.update config.threads thread (settle tag call client rest).1, next⟩
        ∧ ∀ answer ∈ (settle tag call client rest).2, may answer.call := by
    intro store next thread tag call client rest kind
    refine ⟨fun other tag' call' rest' client' busy => ?_, fun answer member => ?_⟩
    · by_cases same : other = thread
      · subst same
        cases rest with
        | done reply => simp [settle] at busy
        | perform op next =>
          simp only [settle, Function.update_self, Thread.busy.injEq] at busy
          exact busy.2.1 ▸ kind
      · simp only [Function.update_of_ne same] at busy
        exact calling _ _ _ _ _ busy
    · cases rest with
      | done reply => exact (List.mem_singleton.mp member) ▸ kind
      | perform op next => cases member
  rcases step_cases moved with ⟨thread, call, client, rfl, idle, rfl, rfl⟩
    | ⟨thread, choice, tag, call, op, next, client, reply, store, rfl, busy, -, rfl, rfl⟩ | ⟨event,
      store, rfl, -, rfl, rfl⟩
  · exact settles _ _ _ _ _ _ _ (starts thread call client rfl idle)
  · exact settles _ _ _ _ _ _ _ (calling _ _ _ _ _ busy)
  · exact ⟨calling, by simp⟩

/-- Where nothing has begun every call is one that may be. -/
theorem Config.Idle.calling {config : Config S} (idle : config.Idle) (may : S.Calls.Op → Prop) :
    config.Calling may := by
  intro thread tag call rest client busy
  obtain ⟨free, shape⟩ := idle thread
  rw [shape] at busy
  cases busy

/-- In every run that starts only calls of a kind, only such calls are under way, and only such
calls have been answered. -/
theorem Run.calling {allowed : Config S → Move S → Prop} {may : S.Calls.Op → Prop}
    {start config : Config S} {log : List (Answer S)} (run : Run allowed start log config)
    (idle : start.Idle)
    (starts : ∀ config thread call client, allowed config (.start thread) →
      config.threads thread = .idle (.perform call client) → may call) :
    config.Calling may ∧ ∀ answer ∈ log, may answer.call := by
  induction run with
  | nil => exact ⟨idle.calling may, by simp⟩
  | @step log config after move answers before permitted moved ih =>
    obtain ⟨calling, answered⟩ := ih.1.step moved fun thread call client same ready =>
      starts config thread call client (same ▸ permitted) ready
    refine ⟨calling, fun answer member => ?_⟩
    rcases List.mem_append.mp member with old | new
    · exact ih.2 answer old
    · exact answered answer new

/-- The call with this number is under way. -/
def Config.InFlight (config : Config S) (tag : Nat) : Prop :=
  ∃ thread call rest client, config.threads thread = .busy tag call rest client

end Concurrent
